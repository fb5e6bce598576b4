import ScriptedPng.Block.Body
import ScriptedPng.Block.Keyword

/-!
# Rendering intent blocks

A block that puts the image into the standard color space holds the number of a rendering intent. It
sets the gamma and the chromaticities of that space as well.

## Main definitions

* `Block.intent` — reads the body of a rendering intent block.
-/

namespace ScriptedPng.Block

/-- There are so many rendering intents; they are numbered from zero. -/
def intentCount : Nat := 4

/-- The image in the standard color space. -/
def inStandardSpace (intent : Nat) (image : Image) : Image :=
  { image with
    intent := some (intent : Int)
    gamma := Image.standardGamma
    chromaticities := Image.standardChromaticities
    given := { image.given with intent := true, gamma := true, chromaticities := true } }

/-- Reads a token as the number of a rendering intent. -/
def readIntent : BodyM Nat := do
  let token ← read Lexer.next
  let intent ← lift (byte token)
  if intent < intentCount then return intent
  else throw ⟨.intentOutOfRange intent, token.map (.at ·.line)⟩

/-- Reads the body of a rendering intent block. -/
def intent : BodyM Unit := do
  let intent ← readIntent
  close Keyword.intent.name
  change (inStandardSpace intent)

theorem forward_readIntent : Forward readIntent :=
  .bind (forward_read Lexer.takes_next.forward) fun _ => .bind (forward_lift _) fun _ =>
    .ite (.pure _) (.throw _)

theorem forward_intent : Forward intent :=
  .bind forward_readIntent fun _ => .bind (forward_close _) fun _ => forward_change _

end ScriptedPng.Block
