import ScriptedPng.Proofs.Block.Told

/-!
# The failures of bodies

Whatever the source is, a body fails on a token that has no place, on a constant out of range, at
the end of the source, or since the source cannot be read as tokens. The lexer remains in front of
characters.

## Main definitions

* `Header.Fault` — these failures.
* `Block.Raises` — an action has only these failures.

## Main statements

* `Block.raises_next`, `Block.raises_integer`, … — the failures of the parts of bodies.
-/

namespace ScriptedPng.Block

open Diagnostic Lexer

variable {α : Type}

/-- The failures of headers: they are about tokens, ranges, the end of the source, or reading. -/
def Header.Fault (diagnostic : Diagnostic) : Prop :=
  diagnostic.cause.category ∈ [.unexpectedToken, .range, .unexpectedEnd] ∨ IsLexical diagnostic

/-- The action gives only failures of headers. -/
abbrev Raises (post : α → Prop) (action : BodyM α) : Prop :=
  Ensures (fun body => Plain body.lexer) post Header.Fault action

theorem raises_next : Raises (fun _ => True) (read Lexer.next) := by
  intro body hplain
  obtain ⟨chars, hresumes⟩ := hplain
  have hnext := (outcome_next hresumes).and (plain_next body.lexer ⟨chars, hresumes⟩)
  refine (outcome_read hnext).mono (fun _ _ h => ⟨trivial, h.2.2.2⟩) ?_
  rintro diagnostic after ⟨-, hlexical, -, hafter⟩
  exact ⟨.inr hlexical, hafter⟩

theorem raises_inner : Raises (fun _ => True) (read Lexer.inner) := by
  unfold Lexer.inner
  rw [read_bind]
  refine .bind raises_next fun found _ body hplain => ?_
  cases found with
  | none => exact ⟨.inl (by simp [Cause.category]), hplain⟩
  | some token => exact ⟨trivial, hplain⟩

theorem raises_require (text : String) : Raises (fun _ => True) (read (Lexer.require text)) := by
  unfold Lexer.require
  rw [read_bind]
  refine .bind raises_next fun found _ body hplain => ?_
  cases found with
  | none => exact ⟨.inl (by simp [Cause.category]), hplain⟩
  | some token =>
    simp only [read]
    split
    · rename_i h
      split at h <;> cases h
      exact ⟨trivial, hplain⟩
    · rename_i h
      split at h <;> cases h
      exact ⟨.inl (by simp [Cause.category]), hplain⟩

theorem raises_change (f : Image → Image) : Raises (fun _ => True) (change f) :=
  fun _ hplain => ⟨trivial, hplain⟩

/-! ## Constants -/

theorem ConstantFault.fault {kind : Constant} {found : Option Token} {diagnostic : Diagnostic}
    (h : ConstantFault kind found diagnostic) : Header.Fault diagnostic := by
  cases h <;> exact .inl (by simp [Cause.category])

theorem raises_readConstant {value : Option Token → Except Diagnostic α}
    (h : ∀ found diagnostic, value found = .error diagnostic → Header.Fault diagnostic) :
    Raises (fun _ => True) (readConstant value) := by
  refine .bind raises_next fun found _ => ?_
  cases hvalue : value found with
  | error diagnostic => exact .throw (h found diagnostic hvalue)
  | ok value => exact .pure trivial

theorem raises_integer (kind : Constant) (limit : Nat) :
    Raises (fun _ => True) (readConstant (integer kind limit)) :=
  raises_readConstant fun _ _ h => (constantFault_of_integer h).fault

theorem raises_double : Raises (fun _ => True) (readConstant double) :=
  raises_readConstant fun _ _ h => (constantFault_of_double h).fault

end ScriptedPng.Block
