import ScriptedPng.Proofs.Block.Told

/-!
# Bodies in front of pieces

Where the pieces of a body are known, and the lexer that they lead to, the body is read piece by
piece up to there. Each item that is spelled takes one round of a loop, and the loop goes on behind
it.

## Main definitions

* `Block.Ahead` — a body in front of pieces, with what they lead to.

## Main statements

* `Block.Ahead.next`, `Block.Ahead.constant`, … — the parts of bodies that are spelled.
* `Block.exists_foldItems_eq` — a round of a loop.
-/

namespace ScriptedPng.Block

open Diagnostic Lexer

variable {α : Type} {pieces : List Piece} {last : Lexer} {image : Image} {body : Body}
  {text : String} {quoted : Bool}

/-- The pieces come next, with the image as the description, and lead to the last lexer. -/
structure Ahead (pieces : List Piece) (last : Lexer) (image : Image) (body : Body) : Prop where
  trail : Trail pieces body.lexer last
  image_eq : body.image = image

namespace Ahead

theorem body_eq (h : Ahead [] last image body) : body = ⟨last, image⟩ := by
  obtain ⟨lexer, _⟩ := body
  obtain ⟨htrail, rfl⟩ := h
  cases htrail
  rfl

theorem next (h : Ahead (.token text quoted :: pieces) last image body) :
    Succeeds (fun found after => (∃ line, found = some ⟨text, line, quoted⟩) ∧
      Ahead pieces last image after) (read Lexer.next body) := by
  obtain ⟨htrail, himage⟩ := h
  cases htrail with
  | @token token _ _ middle _ hnext hrest =>
    simp only [read, hnext]
    exact ⟨⟨token.line, rfl⟩, hrest, himage⟩

theorem inner (h : Ahead (.bare text :: pieces) last image body) (hopen : text ≠ "\x7d") :
    Succeeds (fun found after => ∃ token, found = some token ∧
      (∃ line, token = ⟨text, line, false⟩) ∧ Ahead pieces last image after)
      (read Lexer.inner body) :=
  succeeds_inner_of_next h.next hopen

theorem inner_close (h : Ahead (.bare "\x7d" :: pieces) last image body) :
    Succeeds (fun found after => found = none ∧ Ahead pieces last image after)
      (read Lexer.inner body) :=
  succeeds_inner_close_of_next h.next

theorem require (h : Ahead (.bare text :: pieces) last image body) :
    Succeeds (fun _ after => Ahead pieces last image after) (read (Lexer.require text) body) :=
  succeeds_require_of_next h.next

/-- A constant is read from its token. -/
theorem constant {value : Option Token → Except Diagnostic α} {found : α}
    (h : Ahead (.token text quoted :: pieces) last image body)
    (hvalue : ∀ line, value (some ⟨text, line, quoted⟩) = .ok found) :
    Succeeds (fun result after => result = found ∧ Ahead pieces last image after)
      (readConstant value body) := by
  refine .bind h.next ?_
  rintro _ after ⟨⟨line, rfl⟩, hafter⟩
  rw [hvalue line]
  exact ⟨rfl, hafter⟩

theorem integerConstant (kind : Constant) {limit n : Nat}
    (h : Ahead (.token text quoted :: pieces) last image body) (hvalue : IsInteger limit text n) :
    Succeeds (fun result after => result = n ∧ Ahead pieces last image after)
      (readConstant (integer kind limit) body) := by
  obtain ⟨hparse, hle⟩ := hvalue
  refine h.constant fun line => ?_
  simp only [integer, hparse, if_neg (Nat.not_lt.2 hle)]

theorem doubleConstant {value : Double} (h : Ahead (.token text quoted :: pieces) last image body)
    (hvalue : IsDouble text value) :
    Succeeds (fun result after => result = value ∧ Ahead pieces last image after)
      (readConstant double body) := by
  obtain ⟨hparse, hrange⟩ := hvalue
  refine h.constant fun line => ?_
  simp only [double, hparse, if_pos hrange]

end Ahead

/-- An item that comes next and is handled takes one round of the loop. -/
theorem exists_foldItems_eq {handle : α → Token → BodyM α}
    (hforward : ∀ result token, Forward (handle result token)) {result value : α}
    {post : Body → Prop}
    (h : Succeeds (fun found middle => ∃ token, found = some token ∧
        Succeeds (fun next after => next = value ∧ post after) (handle result token middle))
      (read Lexer.inner body)) :
    ∃ after, post after ∧ foldItems handle hforward result body =
      foldItems handle hforward value after := by
  unfold foldItems
  rw [foldEach_eq]
  cases hread : read Lexer.inner body with
  | error diagnostic middle =>
    rw [hread] at h
    exact h.elim
  | ok found middle =>
    rw [hread] at h
    obtain ⟨token, rfl, hhandled⟩ := h
    cases hhandle : handle result token middle with
    | error diagnostic after =>
      rw [hhandle] at hhandled
      exact hhandled.elim
    | ok next after =>
      rw [hhandle] at hhandled
      obtain ⟨rfl, hafter⟩ := hhandled
      refine ⟨after, hafter, ?_⟩
      rw [bind_of_ok hread]
      exact bind_of_ok hhandle

end ScriptedPng.Block
