import ScriptedPng.Bits
import ScriptedPng.Block.Body
import ScriptedPng.Block.Chromaticities
import ScriptedPng.Block.Constant
import ScriptedPng.Block.Gamma
import ScriptedPng.Block.Header
import ScriptedPng.Block.Intent
import ScriptedPng.Block.Keyword
import ScriptedPng.Block.Order
import ScriptedPng.Block.Palette
import ScriptedPng.Checksum.Adler32
import ScriptedPng.Checksum.Crc32
import ScriptedPng.CommandLine
import ScriptedPng.CommandLine.Machine
import ScriptedPng.Compilation
import ScriptedPng.Diagnostic
import ScriptedPng.Failure
import ScriptedPng.FileTree
import ScriptedPng.Forward
import ScriptedPng.Image.Color
import ScriptedPng.Image.Description
import ScriptedPng.Lexer
import ScriptedPng.Lexer.Remaining
import ScriptedPng.Main
import ScriptedPng.Number.Double
import ScriptedPng.Number.DoubleConstant
import ScriptedPng.Number.FixedPoint
import ScriptedPng.Number.IntegerConstant
import ScriptedPng.Octets
import ScriptedPng.Path
import ScriptedPng.Png.Chunk
import ScriptedPng.Png.Records
import ScriptedPng.Png.Scanline
import ScriptedPng.Png.Sink
import ScriptedPng.Png.Writer
import ScriptedPng.Proofs.Acceptance
import ScriptedPng.Proofs.Bits
import ScriptedPng.Proofs.Block.Ahead
import ScriptedPng.Proofs.Block.Alike
import ScriptedPng.Proofs.Block.Change
import ScriptedPng.Proofs.Block.Content
import ScriptedPng.Proofs.Block.Faces
import ScriptedPng.Proofs.Block.Failures
import ScriptedPng.Proofs.Block.Order
import ScriptedPng.Proofs.Block.Places
import ScriptedPng.Proofs.Block.Spelled
import ScriptedPng.Proofs.Block.Told
import ScriptedPng.Proofs.Block.Tracking
import ScriptedPng.Proofs.Block.Unique
import ScriptedPng.Proofs.BlockFrame
import ScriptedPng.Proofs.BlockOrder
import ScriptedPng.Proofs.ChromaticityGrammar
import ScriptedPng.Proofs.CommandLine.File
import ScriptedPng.Proofs.CommandLine.Independent
import ScriptedPng.Proofs.CommandLine.Sources
import ScriptedPng.Proofs.Contents
import ScriptedPng.Proofs.Emitted
import ScriptedPng.Proofs.Exchange
import ScriptedPng.Proofs.FaultySink
import ScriptedPng.Proofs.FaultySource
import ScriptedPng.Proofs.FileTree
import ScriptedPng.Proofs.HeaderGrammar
import ScriptedPng.Proofs.Indexed
import ScriptedPng.Proofs.Lexer.Behind
import ScriptedPng.Proofs.Lexer.Characters
import ScriptedPng.Proofs.Lexer.Grammar
import ScriptedPng.Proofs.Lexer.Lines
import ScriptedPng.Proofs.Lexer.Pieces
import ScriptedPng.Proofs.Lexer.PushBack
import ScriptedPng.Proofs.Lexer.Trail
import ScriptedPng.Proofs.Lockstep
import ScriptedPng.Proofs.Number.Constants
import ScriptedPng.Proofs.Number.Literals
import ScriptedPng.Proofs.Number.Numeral
import ScriptedPng.Proofs.OneLine
import ScriptedPng.Proofs.Outcome
import ScriptedPng.Proofs.PaletteGrammar
import ScriptedPng.Proofs.Path
import ScriptedPng.Proofs.PictureSource
import ScriptedPng.Proofs.Places
import ScriptedPng.Proofs.Png.Appends
import ScriptedPng.Proofs.Png.Calls
import ScriptedPng.Proofs.Png.Datastream
import ScriptedPng.Proofs.Png.Decoding
import ScriptedPng.Proofs.Png.Frames
import ScriptedPng.Proofs.Png.Framing
import ScriptedPng.Proofs.Png.Info
import ScriptedPng.Proofs.Png.Interlacing
import ScriptedPng.Proofs.Png.Overflow
import ScriptedPng.Proofs.Png.PackedRow
import ScriptedPng.Proofs.Png.Passes
import ScriptedPng.Proofs.Png.Payload
import ScriptedPng.Proofs.Png.Picture
import ScriptedPng.Proofs.Png.Plan
import ScriptedPng.Proofs.Png.Progress
import ScriptedPng.Proofs.Png.Rows
import ScriptedPng.Proofs.Png.Samples
import ScriptedPng.Proofs.Png.Scanlines
import ScriptedPng.Proofs.Png.Storable
import ScriptedPng.Proofs.Reached
import ScriptedPng.Proofs.Reading
import ScriptedPng.Proofs.Record.Alike
import ScriptedPng.Proofs.Record.Integers
import ScriptedPng.Proofs.Record.Layout
import ScriptedPng.Proofs.Record.Nested
import ScriptedPng.Proofs.Record.Operations
import ScriptedPng.Proofs.Record.Reached
import ScriptedPng.Proofs.Record.Registered
import ScriptedPng.Proofs.Record.Settled
import ScriptedPng.Proofs.Record.Sizes
import ScriptedPng.Proofs.Record.Sound
import ScriptedPng.Proofs.Record.Steady
import ScriptedPng.Proofs.Record.Targets
import ScriptedPng.Proofs.Record.Undisturbed
import ScriptedPng.Proofs.Relayout
import ScriptedPng.Proofs.Reported
import ScriptedPng.Proofs.RoundTrip
import ScriptedPng.Proofs.Run
import ScriptedPng.Proofs.Segment.Buffer
import ScriptedPng.Proofs.Segment.Decoding
import ScriptedPng.Proofs.Segment.Spelled
import ScriptedPng.Proofs.Spelling
import ScriptedPng.Proofs.Step
import ScriptedPng.Proofs.Written
import ScriptedPng.Proofs.Zlib.Stored
import ScriptedPng.Record.Class
import ScriptedPng.Record.Encoding
import ScriptedPng.Record.Field
import ScriptedPng.Record.Format
import ScriptedPng.Record.Packing
import ScriptedPng.Record.Path
import ScriptedPng.Record.Position
import ScriptedPng.Record.Text
import ScriptedPng.Record.Update
import ScriptedPng.Record.Usage
import ScriptedPng.Report
import ScriptedPng.Segment.Collector
import ScriptedPng.Segment.Reading
import ScriptedPng.Source
import ScriptedPng.Text.Blank
import ScriptedPng.Text.DecimalDigit
import ScriptedPng.Text.Flags
import ScriptedPng.Text.Hex
import ScriptedPng.Text.Printable
import ScriptedPng.Text.Quoted
import ScriptedPng.Token
import ScriptedPng.Zlib.Stored
