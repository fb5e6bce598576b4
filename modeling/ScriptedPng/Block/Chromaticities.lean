import ScriptedPng.Block.Body

/-!
# Chromaticity blocks

A chromaticity block gives points by name, each one with its two coordinates in parentheses. All
four points must be given; the last of several values counts.

## Main definitions

* `Block.chromaticities` — reads the body of a chromaticity block.
-/

namespace ScriptedPng.Block

namespace Chromaticities

/-- The point that a token names. -/
def primary? (token : Token) : Option Primary :=
  if token.quoted then none else Primary.ofName? token.text

/-- Reads coordinates in parentheses. -/
def readCoordinates : BodyM Point := do
  let _ ← read (Lexer.require "(")
  let x ← readConstant double
  let _ ← read (Lexer.require ",")
  let y ← readConstant double
  let _ ← read (Lexer.require ")")
  return ⟨x, y⟩

/-- Reads the point that a token names and puts it into the description; adds it to the points that
have been given. -/
def readPoint (given : List Primary) (token : Token) : BodyM (List Primary) :=
  match primary? token with
  | none => failAt token .badPrimary
  | some primary => do
    let point ← readCoordinates
    change fun image => { image with chromaticities := image.chromaticities.set primary point }
    return primary :: given

theorem forward_readCoordinates : Forward readCoordinates :=
  .bind (forward_require _) fun _ => .bind (forward_readConstant _) fun _ =>
    .bind (forward_require _) fun _ => .bind (forward_readConstant _) fun _ =>
      .bind (forward_require _) fun _ => .pure _

theorem forward_readPoint (given : List Primary) (token : Token) :
    Forward (readPoint given token) := by
  unfold readPoint
  split
  · exact forward_failAt _ _
  · exact .bind forward_readCoordinates fun _ => .bind (forward_change _) fun _ => .pure _

end Chromaticities

/-- Reads the body of a chromaticity block. -/
def chromaticities : BodyM Unit := do
  let given ← foldItems Chromaticities.readPoint Chromaticities.forward_readPoint []
  if Primary.all.all (· ∈ given) then
    change fun image => { image with given := { image.given with chromaticities := true } }
  else fail .incompleteChromaticities

theorem forward_chromaticities : Forward chromaticities :=
  .bind (forward_foldItems _ _ _) fun _ => .ite (forward_change _) (forward_fail _)

end ScriptedPng.Block
