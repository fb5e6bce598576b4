import ScriptedPng.Image.Description
import ScriptedPng.Record.Format

/-!
# Diagnostics

What can be wrong with a source, or with writing its image, and how it is reported. A diagnostic is
a cause with the line it belongs to; the category it falls into is a function of the cause, and its
wording is one of the cause and of the texts that libraries have for numbers that cannot be stored.

## Main definitions

* `Diagnostic.Category` — the categories, and the wider categories of each.
* `Diagnostic.Cause` — the causes, with `Cause.message` and `Cause.category`.
* `Diagnostic.Quotes` — the texts of libraries that messages quote.
* `Diagnostic` — a cause with its line.
* `Diagnostic.report` — the line that is shown to the user.
-/

namespace ScriptedPng

/-- Where in a source a diagnostic belongs. -/
inductive Line where
  /-- A line of the source, counted from one. -/
  | at (number : Nat)
  /-- After the whole source has been read. -/
  | ending
deriving DecidableEq, Repr

/-- The line as it is shown. -/
def Line.text : Line → String
  | .at number => toString number
  | .ending => "EOF"

namespace Diagnostic

/-- The categories of diagnostics. -/
inductive Category where
  | diagnostic
  | lexical
  | syntactic
  | unexpectedToken
  | missingDelimiter
  | unexpectedEnd
  | malformedData
  | semantic
  | unknownBlock
  | repeatedBlock
  | ordering
  | incomplete
  | range
  | sizeMismatch
  | colorType
  | unsupported
  | backend
deriving DecidableEq, Repr

/-- The categories wider than a category, the next one first. -/
def Category.wider : Category → List Category
  | .diagnostic => []
  | .lexical | .syntactic | .semantic | .unsupported | .backend => [.diagnostic]
  | .unexpectedToken | .missingDelimiter | .unexpectedEnd | .malformedData =>
    [.syntactic, .diagnostic]
  | .unknownBlock | .repeatedBlock | .ordering | .incomplete | .range | .sizeMismatch
  | .colorType => [.semantic, .diagnostic]

/-- The constants that stand in a source. -/
inductive Constant where
  /-- An integer up to `2 ^ 31 - 2`. -/
  | long
  /-- An integer up to 255. -/
  | byte
  /-- A finite double that is not negative. -/
  | double
deriving DecidableEq, Repr

/-- The constant in messages about its text. -/
def Constant.name : Constant → String
  | .long => "long"
  | .byte => "byte"
  | .double => "double-precision"

/-- The constant in messages about its absence. -/
def Constant.longName : Constant → String
  | .long => "long-integer"
  | .byte => "byte"
  | .double => "double-precision"

/-- The ways for a block to stand in a wrong place. -/
inductive Misplacement where
  /-- The header is not the first block. -/
  | headerNotFirst
  /-- A palette follows pixel data. -/
  | paletteAfterPixels
  /-- A palette follows a block that refers to it. -/
  | paletteAfter (name : String)
  /-- Pixel data is given in both forms. -/
  | mixedPixels
  /-- Blocks of data are interrupted by another block. -/
  | scatteredData
  /-- A property of colors follows the palette or pixel data. -/
  | late (name : String)
deriving DecidableEq, Repr

/-- The wording of a misplacement. -/
def Misplacement.message : Misplacement → String
  | .headerNotFirst => "IHDR chunk must come first"
  | .paletteAfterPixels => "PLTE chunk must come before IDAT"
  | .paletteAfter name => s!"PLTE chunk encountered after {name}"
  | .mixedPixels => "can't mix IDAT and IMAGE specs"
  | .scatteredData => "IDAT chunks must be contiguous"
  | .late name => s!"{name} chunk must come before PLTE and IDAT"

/-- What can be wrong. -/
inductive Cause where
  /-- The source cannot be opened. -/
  | notOpened (path reason : String)
  /-- The source cannot be read further. -/
  | readFailed (reason : String)
  | unterminatedString
  | newlineInString
  | stringTooLong
  | wordTooLong
  /-- A delimiter is missing; the token stands in its place. -/
  | unexpectedToken (text : String)
  /-- A token has no place in the block. -/
  | badToken (text block : String)
  | badConstant (kind : Constant) (text : String)
  | badPaletteEntry
  | badPrimary
  | missingDelimiter
  | unexpectedEnd
  | endInConstant (kind : Constant)
  | endInData
  | badDataCharacter
  | oddHexDigits
  | unknownBlock (text : String)
  | repeatedBlock (name : String)
  | unsupportedBlock (name : String)
  | misplaced (how : Misplacement)
  /-- A palette is given for an image that uses none. -/
  | unusedPalette
  | noHeight
  | noWidth
  | constantOutOfRange (kind : Constant) (text : String)
  | tooManyPaletteEntries
  | intentOutOfRange (intent : Nat)
  | incompleteChromaticities
  /-- Pixel data has the wrong number of octets. -/
  | sizeMismatch (actual : Nat) (expected : Int)
  | noPalette
  | noPixels
  | badColorType (flags : ColorFlags)
  | badBitDepth (depth : Int) (type : ColorType)
  /-- The palette has more entries than an index can tell apart. -/
  | paletteBeyondDepth (depth : Int)
  | emptyPalette
  /-- A number does not fit the chunk that holds it. -/
  | valueOutOfRange (chunk : String) (misfit : Misfit)
  /-- A sample of the pixel data does not fit the bit depth of the image, or the rows of the image
  have no octets. -/
  | sampleOutOfRange (image : Image) (data : Octets)
  /-- The image cannot be written further. -/
  | writeFailed (reason : String)
deriving DecidableEq, Repr

/-- What libraries say of numbers that cannot be stored. Messages quote it. -/
class Quotes where
  /-- Of a number that does not have its format. -/
  ofMisfit : Misfit → String
  /-- Of a sample that does not fit the bit depth of the image, or of rows without octets. -/
  ofSamples : Image → Octets → String
  /-- The texts are on one line. -/
  newline_not_mem_ofMisfit : ∀ misfit, '\n' ∉ (ofMisfit misfit).toList
  newline_not_mem_ofSamples : ∀ image data, '\n' ∉ (ofSamples image data).toList

/-- Quotes without the numbers themselves. -/
@[reducible] def Quotes.plain : Quotes where
  ofMisfit _ := "argument out of range"
  ofSamples _ _ := "sample out of range"
  newline_not_mem_ofMisfit _ := by decide
  newline_not_mem_ofSamples _ _ := by decide

namespace Cause

/-- The category of a cause. -/
def category : Cause → Category
  | notOpened .. | readFailed .. | unterminatedString | newlineInString | stringTooLong
  | wordTooLong => .lexical
  | unexpectedToken .. | badToken .. | badConstant .. | badPaletteEntry | badPrimary =>
    .unexpectedToken
  | missingDelimiter => .missingDelimiter
  | unexpectedEnd | endInConstant .. | endInData => .unexpectedEnd
  | badDataCharacter | oddHexDigits => .malformedData
  | unknownBlock .. => .unknownBlock
  | repeatedBlock .. => .repeatedBlock
  | unsupportedBlock .. => .unsupported
  | misplaced .. => .ordering
  | unusedPalette => .colorType
  | noHeight | noWidth | constantOutOfRange .. | tooManyPaletteEntries | intentOutOfRange .. =>
    .range
  | incompleteChromaticities | noPalette | noPixels => .incomplete
  | sizeMismatch .. => .sizeMismatch
  | badColorType .. | badBitDepth .. | paletteBeyondDepth .. | emptyPalette | valueOutOfRange ..
  | sampleOutOfRange .. | writeFailed .. => .backend

/-- The wording of a cause. -/
def message [Quotes] : Cause → String
  | notOpened path reason => s!"can't open {path}: {reason}"
  | readFailed reason => s!"read error: {reason}"
  | unterminatedString => "unterminated string"
  | newlineInString => "runaway string"
  | stringTooLong => "string token too long"
  | wordTooLong => "token too long"
  | unexpectedToken text => s!"unexpected token {text}"
  | badToken text block => s!"bad token `{text}' in {block} specification"
  | badConstant kind text => s!"invalid {kind.name} constant `{text}'"
  | badPaletteEntry => "bad syntax in PLTE description"
  | badPrimary => "invalid color name in cHRM specification"
  | missingDelimiter => "missing chunk delimiter"
  | unexpectedEnd => "unexpected EOF"
  | endInConstant kind => s!"EOF while expecting {kind.longName} constant"
  | endInData => "unexpected EOF in data segment"
  | badDataCharacter => "bad character in data segment"
  | oddHexDigits => "odd number of hex digits in data segment"
  | unknownBlock text => s!"unknown chunk type `{text}'"
  | repeatedBlock name => s!"illegal repeated chunk {name}"
  | unsupportedBlock name => s!"{name} chunk type is not handled yet"
  | misplaced how => how.message
  | unusedPalette => "PLTE chunk specified for non-palette image type"
  | noHeight => "image height is zero or nonexistent"
  | noWidth => "image width is zero or nonexistent"
  | constantOutOfRange kind text => s!"out of range {kind.name} constant {text}"
  | tooManyPaletteEntries => "too many entries in PLTE description"
  | intentOutOfRange intent => s!"invalid sRGB rendering intent {intent}"
  | incompleteChromaticities => "cHRM specification is not complete"
  | sizeMismatch actual expected =>
    s!"size of IMAGE ({actual} bytes) doesn't match height * width in IHDR ({expected} bytes)"
  | noPalette => "palette property set, but no PLTE chunk found"
  | noPixels => "no image data"
  | badColorType flags => s!"invalid color type {flags.text}"
  | badBitDepth depth type => s!"invalid bit depth {depth} for color type {type.name}"
  | paletteBeyondDepth depth => s!"too many palette entries for bit depth {depth}"
  | emptyPalette => "the palette is empty"
  | valueOutOfRange chunk misfit =>
    s!"value out of range in chunk {chunk}: {Quotes.ofMisfit misfit}"
  | sampleOutOfRange image data =>
    s!"sample does not fit bit depth {image.bitDepth}: {Quotes.ofSamples image data}"
  | writeFailed reason => s!"write error: {reason}"

end Cause

end Diagnostic

/-- A cause with the line it belongs to, where that is known. -/
structure Diagnostic where
  cause : Diagnostic.Cause
  line : Option Line := none
deriving DecidableEq, Repr

namespace Diagnostic

/-- A message under the name of its source and, where it is known, its line. -/
def format (source : String) (line : Option Line) (message : String) : String :=
  match line with
  | none => s!"{source}: {message}"
  | some line => s!"{source}:{line.text}: {message}"

/-- The line that is shown to the user. -/
def report [Quotes] (source : String) (diagnostic : Diagnostic) : String :=
  format source diagnostic.line diagnostic.cause.message

/-- Whether the image could not be written, as opposed to a fault of the source. -/
def isBackend (diagnostic : Diagnostic) : Bool :=
  diagnostic.cause.category = .backend

/-- The diagnostic on the given line, unless it has a line already. -/
def withLine (line : Line) (diagnostic : Diagnostic) : Diagnostic :=
  { diagnostic with line := some (diagnostic.line.getD line) }

end Diagnostic

end ScriptedPng
