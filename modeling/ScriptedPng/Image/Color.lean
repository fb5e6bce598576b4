import ScriptedPng.Text.Flags

/-!
# Color types

An image description says in three independent flags how its pixels are colored. Five of the eight
combinations are color types of PNG, and each color type admits some bit depths.

## Main definitions

* `ColorFlags` — whether pixels use a palette, have color, and have an alpha channel.
* `ColorType` — the color types of PNG.
* `ColorFlags.colorType?` — the color type that the flags stand for.
-/

namespace ScriptedPng

/-- How the pixels of an image are colored. -/
structure ColorFlags where
  /-- Pixels are indexes into a palette. -/
  palette : Bool := false
  /-- Pixels have a red, a green and a blue sample rather than a gray one. -/
  color : Bool := false
  /-- Pixels have an alpha sample. -/
  alpha : Bool := false
deriving DecidableEq, Repr

/-- The color types of PNG. -/
inductive ColorType where
  | grayscale
  | rgb
  | indexed
  | grayscaleAlpha
  | rgba
deriving DecidableEq, Repr

namespace ColorType

/-- The number that stands for the color type in a header. -/
def code : ColorType → Nat
  | grayscale => 0
  | rgb => 2
  | indexed => 3
  | grayscaleAlpha => 4
  | rgba => 6

/-- The name of the color type in messages. -/
def name : ColorType → String
  | grayscale => "GRAYSCALE"
  | rgb => "RGB"
  | indexed => "RGB_PALETTE"
  | grayscaleAlpha => "GS_ALPHA"
  | rgba => "RGBA"

/-- All color types, in the order of their numbers. -/
def all : List ColorType := [grayscale, rgb, indexed, grayscaleAlpha, rgba]

/-- The bits that a sample, or an index into the palette, may have. -/
def bitDepths : ColorType → List Int
  | grayscale => [1, 2, 4, 8, 16]
  | indexed => [1, 2, 4, 8]
  | rgb | grayscaleAlpha | rgba => [8, 16]

theorem mem_all (type : ColorType) : type ∈ all := by cases type <;> decide

theorem code_injective {a b : ColorType} (h : a.code = b.code) : a = b := by
  cases a <;> cases b <;> simp_all [code]

end ColorType

namespace ColorFlags

/-- The flags with the names they have in messages, the least significant bit first. -/
def named (flags : ColorFlags) : List (String × Bool) :=
  [("PALETTE", flags.palette), ("COLOR", flags.color), ("ALPHA", flags.alpha)]

/-- The flags as they are shown in messages. -/
def text (flags : ColorFlags) : String :=
  Text.showFlags "ColorMask" flags.named

/-- The number whose bits are the flags. -/
def number (flags : ColorFlags) : Nat :=
  Text.flagNumber (flags.named.map Prod.snd)

/-- The flags that the bits of a number stand for; the bits beyond them are of no account. -/
def ofNumber (n : Int) : ColorFlags :=
  ⟨Text.flagOf n 0, Text.flagOf n 1, Text.flagOf n 2⟩

/-- The samples that a pixel has; an index counts as one. -/
def channels (flags : ColorFlags) : Nat :=
  (if flags.color then 3 else 1) + (if flags.alpha then 1 else 0)

/-- The color type of PNG with these flags. A palette is always in color, and its pixels have no
alpha channel. -/
def colorType? : ColorFlags → Option ColorType
  | ⟨true, _, true⟩ => none
  | ⟨true, _, false⟩ => some .indexed
  | ⟨false, false, false⟩ => some .grayscale
  | ⟨false, true, false⟩ => some .rgb
  | ⟨false, false, true⟩ => some .grayscaleAlpha
  | ⟨false, true, true⟩ => some .rgba

theorem colorType?_eq_none {flags : ColorFlags} :
    flags.colorType? = none ↔ flags.palette = true ∧ flags.alpha = true := by
  obtain ⟨palette, color, alpha⟩ := flags
  cases palette <;> cases color <;> cases alpha <;> simp [colorType?]

theorem colorType?_eq_indexed {flags : ColorFlags} :
    flags.colorType? = some .indexed ↔ flags.palette = true ∧ flags.alpha = false := by
  obtain ⟨palette, color, alpha⟩ := flags
  cases palette <;> cases color <;> cases alpha <;> simp [colorType?]

end ColorFlags

end ScriptedPng
