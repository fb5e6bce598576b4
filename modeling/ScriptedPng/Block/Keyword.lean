import ScriptedPng.Image.Description

/-!
# Keywords of blocks

Each block of a source starts with a keyword, which is the type of the chunk that it describes, or
one of two further words. Some blocks may be repeated. Not all of them are supported: the others are
known only so that they can be told from mistakes.

## Main definitions

* `Block.Keyword` — the keywords.
* `Keyword.name`, `Keyword.ofName?` — the keyword as a word of the source.
* `Keyword.isRepeatable`, `Keyword.isSupported` — the blocks that may be repeated, and those that
  can be compiled.
-/

namespace ScriptedPng.Block

/-- The keywords of blocks. -/
inductive Keyword where
  | header
  | palette
  | data
  | chromaticities
  | gamma
  | profile
  | significantBits
  | intent
  | background
  | histogram
  | transparency
  | dimensions
  | suggestedPalette
  | time
  | internationalText
  | text
  | compressedText
  | offset
  | calibration
  | scale
  | gifControl
  | gifText
  | gifApplication
  | fractal
  /-- The pixels of the image before compression. -/
  | pixels
  /-- A chunk of a type that is not registered. -/
  | custom
deriving DecidableEq, Repr

namespace Keyword

/-- The keyword as a word of the source. -/
def name : Keyword → String
  | header => "IHDR"
  | palette => "PLTE"
  | data => "IDAT"
  | chromaticities => "cHRM"
  | gamma => "gAMA"
  | profile => "iCCP"
  | significantBits => "sBIT"
  | intent => "sRGB"
  | background => "bKGD"
  | histogram => "hIST"
  | transparency => "tRNS"
  | dimensions => "pHYs"
  | suggestedPalette => "sPLT"
  | time => "tIME"
  | internationalText => "iTXt"
  | text => "tEXt"
  | compressedText => "zTXt"
  | offset => "oFFs"
  | calibration => "pCAL"
  | scale => "sCAL"
  | gifControl => "gIFg"
  | gifText => "gIFt"
  | gifApplication => "gIFx"
  | fractal => "fRAc"
  | pixels => "IMAGE"
  | custom => "private"

/-- All keywords. -/
def all : List Keyword :=
  [header, palette, data, chromaticities, gamma, profile, significantBits, intent, background,
    histogram, transparency, dimensions, suggestedPalette, time, internationalText, text,
    compressedText, offset, calibration, scale, gifControl, gifText, gifApplication, fractal,
    pixels, custom]

/-- The keyword that a word is. -/
def ofName? (name : String) : Option Keyword :=
  all.find? (·.name = name)

/-- The blocks that may be repeated. -/
def isRepeatable (keyword : Keyword) : Bool :=
  keyword ∈ [data, suggestedPalette, internationalText, text, compressedText, custom]

/-- The blocks that can be compiled. -/
def isSupported (keyword : Keyword) : Bool :=
  keyword ∈ [header, palette, data, chromaticities, gamma, intent, pixels]

theorem mem_all (keyword : Keyword) : keyword ∈ all := by cases keyword <;> decide

theorem ofName?_name (keyword : Keyword) : ofName? keyword.name = some keyword := by
  cases keyword <;> rfl

theorem name_of_ofName? {name : String} {keyword : Keyword} (h : ofName? name = some keyword) :
    keyword.name = name := by
  simpa using List.find?_some h

end Keyword

end ScriptedPng.Block
