import ScriptedPng.Block.Body
import ScriptedPng.Block.Keyword

/-!
# Header blocks

A header block is a list of settings in any order: the width, the height and the bit depth with
their values, flags for the colors and the interlacing, and two words that only make it read well.
The last of several values counts. Width and height must be given and not be zero.

## Main definitions

* `Header.Setting` — the settings, with `Setting.apply`.
* `Block.header` — reads the body of a header block.
-/

namespace ScriptedPng.Block

namespace Header

/-- A setting of a header block. -/
inductive Setting where
  | height (value : Nat)
  | width (value : Nat)
  | bitDepth (value : Nat)
  | palette
  | color
  | alpha
  | interlace
  /-- A word without a meaning. -/
  | filler
deriving DecidableEq, Repr

/-- The image with the setting. -/
def Setting.apply (image : Image) : Setting → Image
  | height value => { image with height := value }
  | width value => { image with width := value }
  | bitDepth value => { image with bitDepth := value }
  | palette => { image with color := { image.color with palette := true } }
  | color => { image with color := { image.color with color := true } }
  | alpha => { image with color := { image.color with alpha := true } }
  | interlace => { image with interlace := .adam7 }
  | filler => image

/-- The setting that a token starts. -/
def setting (token : Token) : BodyM Setting :=
  if token.Is "height" then Setting.height <$> readConstant long
  else if token.Is "width" then Setting.width <$> readConstant long
  else if token.Is "bitdepth" then Setting.bitDepth <$> readConstant byte
  else if token.Is "using" ∨ token.Is "with" then pure .filler
  else if token.Is "palette" then pure .palette
  else if token.Is "color" then pure .color
  else if token.Is "alpha" then pure .alpha
  else if token.Is "interlace" then pure .interlace
  else failAt token (.badToken token.text Keyword.header.name)

/-- Reads a setting and applies it. -/
def readSetting (token : Token) : BodyM Unit := do
  let setting ← setting token
  change (setting.apply ·)

/-- The image before any setting. -/
def reset (image : Image) : Image :=
  { image with bitDepth := 8, color := {}, interlace := .none }

/-- Checks that the image has a size. -/
def checkSize : BodyM Unit := do
  let image ← image
  if image.height = 0 then fail .noHeight
  else if image.width = 0 then fail .noWidth
  else pure ()

theorem forward_setting (token : Token) : Forward (setting token) := by
  have hlong (f : Nat → Setting) : Forward (f <$> readConstant long) :=
    .bind (forward_readConstant long) fun _ => .pure _
  have hbyte (f : Nat → Setting) : Forward (f <$> readConstant byte) :=
    .bind (forward_readConstant byte) fun _ => .pure _
  exact .ite (hlong _) <| .ite (hlong _) <| .ite (hbyte _) <| .ite (.pure _) <| .ite (.pure _) <|
    .ite (.pure _) <| .ite (.pure _) <| .ite (.pure _) <| forward_failAt _ _

theorem forward_readSetting (token : Token) : Forward (readSetting token) :=
  .bind (forward_setting token) fun _ => forward_change _

theorem forward_checkSize : Forward checkSize :=
  .bind forward_image fun _ =>
    .ite (forward_fail _) <| .ite (forward_fail _) <| .pure _

end Header

/-- Reads the body of a header block. -/
def header : BodyM Unit := do
  change Header.reset
  forEachItem Header.readSetting Header.forward_readSetting
  Header.checkSize

theorem forward_header : Forward header :=
  .bind (forward_change _) fun _ => .bind (forward_forEachItem _ _) fun _ =>
    Header.forward_checkSize

end ScriptedPng.Block
