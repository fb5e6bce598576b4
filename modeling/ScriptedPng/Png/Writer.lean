import ScriptedPng.Failure
import ScriptedPng.Number.FixedPoint
import ScriptedPng.Png.Chunk
import ScriptedPng.Png.Sink
import ScriptedPng.Record.Packing
import ScriptedPng.Zlib.Stored

/-!
# Writing PNG datastreams

A datastream is written in three steps: all that comes before the pixel data, the pixel data, and
the end. The signature and every chunk take one write each. The writer keeps a record of the chunks
written.

## Main definitions

* `Png.Writer` — a sink with the types of the chunks written to it.
* `Writer.writeInfo` — the signature and the chunks before the pixel data.
* `Writer.writeChunk` — a chunk.
* `Writer.writeImage` — the chunks that hold an image.
* `Writer.writeEnd` — the last chunk.
-/

namespace ScriptedPng.Png

open Diagnostic

/-- A sink with the types of the chunks written to it. -/
structure Writer where
  sink : Sink
  types : List Octets := []
deriving DecidableEq, Repr

/-- An action on the writer, which may fail; what it has written stays written. -/
abbrev WriterM := EStateM Failure Writer

/-- A chunk of compressed pixel data holds at most so many octets. -/
def dataLimit : Nat := 8192

/-- The mark in front of a scanline that is stored as it is. -/
def unfiltered : UInt8 := 0

/-- The color type of an image that can be written. Its flags must stand for a color type, its bit
depth must be one of that type, indexes must reach all of its palette, and a palette that has been
given must not be empty. -/
def checkHeader (image : Image) : Except Diagnostic ColorType :=
  match image.color.colorType? with
  | none => .error ⟨.badColorType image.color, none⟩
  | some type =>
    if image.bitDepth ∉ type.bitDepths then .error ⟨.badBitDepth image.bitDepth type, none⟩
    else if type = .indexed ∧ 1 <<< image.bitDepth.toNat < image.palette.length then
      .error ⟨.paletteBeyondDepth image.bitDepth, none⟩
    else if image.given.palette ∧ image.palette = [] then .error ⟨.emptyPalette, none⟩
    else .ok type

/-- The octets of pixel data before compression: its scanlines, each one behind its mark. -/
def imageData (image : Image) (data : Octets) : Except Failure Octets :=
  match scanlines image data with
  | .ok lines => .ok (lines.flatMap (unfiltered :: ·))
  | .error .missingRow => .error (.rows .missingRow)
  | .error _ => .error (.ofCause (.sampleOutOfRange image data))

namespace Writer

/-- The writer of an empty datastream. -/
def ofSink (sink : Sink) : Writer where
  sink := sink

/-- Fails with a cause that has no line. -/
def fail {α : Type} (cause : Cause) : WriterM α :=
  throw (.ofCause cause)

/-- Takes over a value or a failure. -/
def lift {α : Type} (result : Except Failure α) : WriterM α :=
  match result with
  | .ok value => pure value
  | .error failure => throw failure

/-- Writes octets to the sink in one write. -/
def write (octets : Octets) : WriterM Unit := fun writer =>
  match writer.sink.write octets with
  | .ok sink => .ok () { writer with sink }
  | .error reason => fail (.writeFailed reason) writer

/-- Writes a chunk of a type around its data and records its type. The type must be a text of four
octets and the data must have a size; only then it is found out whether all values fit. -/
def writeChunk (type : Octets) (data : Record.Field) : WriterM Unit := do
  let chunk ← lift ((chunkRecord type data).mapError .record)
  let some name := String.fromUTF8? ⟨type.toArray⟩ | throw .unreadableType
  let _ ← lift (data.size.mapError .record)
  match (chunk.pack {}).1 with
  | .error (.unencodable misfit) => fail (.valueOutOfRange name misfit)
  | .error fault => throw (.record fault)
  | .ok octets =>
    write octets
    modify fun writer => { writer with types := writer.types ++ [type] }

/-- Packs a record and writes it in one write. -/
def writeRecord (record : Record.Field) : WriterM Unit := do
  write (← lift ((record.pack {}).1.mapError .record))

/-- A number times 100000, rounded. -/
def fixedPoint (value : Double) : WriterM Int :=
  lift ((FixedPoint.ofDouble value).mapError .number)

/-- Writes the signature, the header, and the chunks for the properties given, in the order that is
prescribed for them. -/
def writeInfo (image : Image) : WriterM Unit := do
  let type ← lift ((checkHeader image).mapError .diagnostic)
  writeRecord signatureRecord
  writeChunk headerType
    (headerRecord image.width image.height image.bitDepth type image.interlace)
  if image.given.gamma then
    writeChunk gammaType (numberField Record.wordFormat (.integer (← fixedPoint image.gamma)))
  if image.given.intent then
    writeChunk intentType
      (numberField byteFormat (image.intent.elim Record.Value.null Record.Value.integer))
  if image.given.chromaticities then
    let coordinates ← image.chromaticities.coordinates.mapM fixedPoint
    writeChunk chromaticityType (chromaticityRecord coordinates)
  if image.given.palette then
    writeChunk paletteType (paletteArray image.palette)

/-- Writes the chunks that hold an image with the given pixel data. -/
def writeImage (image : Image) (data : Octets) : WriterM Unit := do
  let raw ← lift (imageData image data)
  ((Zlib.compress raw).pieces (dataLimit - 1)).forM fun piece =>
    writeChunk dataType (octetField piece)

/-- Writes the last chunk and completes the writes. -/
def writeEnd : WriterM Unit := do
  writeChunk endType (octetField [])
  match (← get).sink.flush with
  | .ok () => return
  | .error reason => fail (.writeFailed reason)

end Writer

end ScriptedPng.Png
