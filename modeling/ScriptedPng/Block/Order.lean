import ScriptedPng.Block.Keyword
import ScriptedPng.Diagnostic

/-!
# The order of blocks

A block is allowed or not by the blocks before it, and by the colors of the image. The header comes
first, properties come before the palette, the palette before the pixels, and the pixels are given
either by one block of pixels or by blocks of data in a row.

## Main definitions

* `Block.Progress` — the blocks that have been compiled.
* `Progress.check` — whether a block is allowed next.
* `Progress.checkEnd` — whether the source may end.
-/

namespace ScriptedPng.Block

open Diagnostic

/-- The blocks that have been compiled. -/
structure Progress where
  /-- Their keywords, the last one first. -/
  seen : List Keyword := []
  /-- The last block. -/
  previous : Option Keyword := none
deriving DecidableEq, Repr

namespace Progress

/-- How many blocks have the keyword. -/
def count (progress : Progress) (keyword : Keyword) : Nat :=
  progress.seen.count keyword

/-- Whether a block has the keyword. -/
def has (progress : Progress) (keyword : Keyword) : Bool :=
  progress.count keyword ≠ 0

/-- How many blocks give pixels. -/
def pixelBlocks (progress : Progress) : Nat :=
  progress.count .data + progress.count .pixels

/-- Whether a block gives pixels. -/
def hasPixels (progress : Progress) : Bool :=
  progress.pixelBlocks ≠ 0

/-- Takes a block as compiled. -/
def add (keyword : Keyword) (progress : Progress) : Progress where
  seen := keyword :: progress.seen
  previous := some keyword

/-- The first cause whose condition holds. -/
def firstOf : List (Bool × Cause) → Except Cause Unit
  | [] => .ok ()
  | (true, cause) :: _ => .error cause
  | (false, _) :: rest => firstOf rest

/-- What is wrong with a block after others, the graver causes first. The color flags are those of
the header. -/
def faults (progress : Progress) (color : ColorFlags) : Keyword → List (Bool × Cause)
  | .header => [(progress.previous.isSome, .misplaced .headerNotFirst)]
  | .palette => [
      (progress.hasPixels, .misplaced .paletteAfterPixels),
      (progress.has .background, .misplaced (.paletteAfter Keyword.background.name)),
      (progress.has .transparency, .misplaced (.paletteAfter Keyword.transparency.name)),
      (!color.palette, .unusedPalette)]
  | .data => [
      (progress.has .pixels, .misplaced .mixedPixels),
      (progress.previous ≠ some .data && progress.has .data, .misplaced .scatteredData)]
  | .pixels => [(progress.has .data, .misplaced .mixedPixels)]
  | keyword => [
      (progress.has .palette, .misplaced (.late keyword.name)),
      (progress.hasPixels, .misplaced (.late keyword.name))]

/-- Whether a block is allowed next. -/
def check (progress : Progress) (color : ColorFlags) (keyword : Keyword) : Except Cause Unit :=
  firstOf <| [
    (!keyword.isRepeatable && progress.has keyword, .repeatedBlock keyword.name),
    (!keyword.isSupported, .unsupportedBlock keyword.name),
    (keyword ≠ .header && !progress.has .header, .misplaced .headerNotFirst)] ++
    progress.faults color keyword

/-- Whether the source may end: a palette must be there if it is needed, and pixels. -/
def checkEnd (progress : Progress) (color : ColorFlags) : Except Cause Unit :=
  firstOf [
    (color.palette && !progress.has .palette, .noPalette),
    (!progress.hasPixels, .noPixels)]

theorem firstOf_eq_ok {conditions : List (Bool × Cause)} :
    firstOf conditions = .ok () ↔ ∀ c ∈ conditions, c.1 = false := by
  fun_induction firstOf conditions <;> simp_all

theorem count_add (progress : Progress) (keyword other : Keyword) :
    (progress.add keyword).count other =
      progress.count other + if keyword = other then 1 else 0 := by
  simp [count, add, List.count_cons]

end Progress

end ScriptedPng.Block
