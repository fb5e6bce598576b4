import ScriptedPng.Image.Color
import ScriptedPng.Number.Double

/-!
# Image descriptions

Everything that a source says about its image apart from the pixels. The numbers are unbounded
integers: what does not fit the format is found out when it is written.

## Main definitions

* `Image` — the description.
* `Image.sampleSize`, `Image.pixelSize` — how many bits and octets of pixel data describe a pixel.
* `Image.text` — the description in one line.
-/

namespace ScriptedPng

/-- A point of the chromaticity diagram. -/
structure Point where
  x : Double := {}
  y : Double := {}
deriving DecidableEq, Repr

/-- The points whose chromaticities describe the colors of an image. -/
inductive Primary where
  | white
  | red
  | green
  | blue
deriving DecidableEq, Repr

namespace Primary

/-- The name of the point in a source. -/
def name : Primary → String
  | white => "white"
  | red => "red"
  | green => "green"
  | blue => "blue"

/-- The points in the order in which they are stored. -/
def all : List Primary := [white, red, green, blue]

/-- The point with the given name. -/
def ofName? (name : String) : Option Primary :=
  all.find? (·.name = name)

end Primary

/-- The chromaticities of the white point and of the three primary colors. -/
structure Chromaticities where
  white : Point := {}
  red : Point := {}
  green : Point := {}
  blue : Point := {}
deriving DecidableEq, Repr

namespace Chromaticities

/-- Replaces one of the points. -/
def set (points : Chromaticities) (which : Primary) (point : Point) : Chromaticities :=
  match which with
  | .white => { points with white := point }
  | .red => { points with red := point }
  | .green => { points with green := point }
  | .blue => { points with blue := point }

/-- One of the points. -/
def get (points : Chromaticities) : Primary → Point
  | .white => points.white
  | .red => points.red
  | .green => points.green
  | .blue => points.blue

/-- The eight coordinates in the order in which they are stored. -/
def coordinates (points : Chromaticities) : List Double :=
  Primary.all.flatMap fun which => [(points.get which).x, (points.get which).y]

@[simp] theorem get_set (points : Chromaticities) (which other : Primary) (point : Point) :
    (points.set which point).get other = if other = which then point else points.get other := by
  cases which <;> cases other <;> rfl

end Chromaticities

/-- An entry of a palette. -/
structure Rgb where
  red : Int
  green : Int
  blue : Int
deriving DecidableEq, Repr

/-- The order in which rows and pixels are stored. -/
inductive Interlace where
  /-- Row by row. -/
  | none
  /-- In seven passes over the image. -/
  | adam7
deriving DecidableEq, Repr

namespace Interlace

/-- The number that stands for the order in a header. -/
def code : Interlace → Nat
  | none => 0
  | adam7 => 1

/-- The name of the order. -/
def name : Interlace → String
  | none => "NONE"
  | adam7 => "ADAM7"

/-- The order that a number stands for. -/
def ofCode? (code : Int) : Option Interlace :=
  [none, adam7].find? fun interlace => (interlace.code : Int) = code

end Interlace

/-- Which optional properties of an image have been given. -/
structure Given where
  gamma : Bool := false
  chromaticities : Bool := false
  intent : Bool := false
  palette : Bool := false
deriving DecidableEq, Repr

namespace Given

/-- The properties under the names of the chunks that hold them, the least significant bit first. -/
def named (given : Given) : List (String × Bool) :=
  [("gAMA", given.gamma), ("cHRM", given.chromaticities), ("sRGB", given.intent),
    ("PLTE", given.palette)]

/-- The number whose bits are the properties. -/
def number (given : Given) : Nat :=
  Text.flagNumber (given.named.map Prod.snd)

/-- The properties that the bits of a number stand for; the bits beyond them are of no account. -/
def ofNumber (n : Int) : Given where
  gamma := Text.flagOf n 0
  chromaticities := Text.flagOf n 1
  intent := Text.flagOf n 2
  palette := Text.flagOf n 3

end Given

/-- The description of an image. -/
structure Image where
  width : Int := 0
  height : Int := 0
  bitDepth : Int := 8
  color : ColorFlags := {}
  interlace : Interlace := .none
  gamma : Double := {}
  chromaticities : Chromaticities := {}
  palette : List Rgb := []
  intent : Option Int := none
  given : Given := {}
deriving DecidableEq, Repr

namespace Image

/-- The gamma of an image in the standard color space: 0.45455. -/
def standardGamma : Double := .nearest false 45455 100000

/-- A point whose coordinates are given in steps of a ten-thousandth. -/
def pointOfSteps (x y : Nat) : Point :=
  ⟨.nearest false x 10000, .nearest false y 10000⟩

/-- The chromaticities of the standard color space. -/
def standardChromaticities : Chromaticities where
  white := pointOfSteps 3127 3290
  red := pointOfSteps 6400 3300
  green := pointOfSteps 3000 6000
  blue := pointOfSteps 1500 600

/-- The bits of pixel data that describe a pixel; an index into the palette always takes eight. -/
def sampleSize (image : Image) : Int :=
  if image.color.palette then 8 else image.bitDepth * image.color.channels

/-- The octets of pixel data that describe a pixel; a sample smaller than an octet takes one. -/
def pixelSize (image : Image) : Int :=
  max 1 (image.sampleSize / 8)

/-- The description in one line. -/
def text (image : Image) : String :=
  let size := "x".intercalate [toString image.width, toString image.height, toString image.bitDepth]
  let given := Text.showFlags "Valid" image.given.named
  s!"<ImageDescription({size}, color_type={image.color.text}, valid={given})>"

theorem one_le_pixelSize (image : Image) : 1 ≤ image.pixelSize := Int.le_max_left _ _

end Image

end ScriptedPng
