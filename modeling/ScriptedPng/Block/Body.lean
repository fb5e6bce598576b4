import ScriptedPng.Block.Constant
import ScriptedPng.Image.Description
import ScriptedPng.Lexer.Remaining

/-!
# Bodies of blocks

The body of a block is read token by token up to the delimiter that closes it, and changes the
description of the image. What it has changed stays changed if it turns out to be wrong further on.

## Main definitions

* `Block.Body` — what a body reads and changes.
* `Block.read`, `Block.readConstant`, `Block.change` — the actions of bodies.
* `Block.foldItems`, `Block.forEachItem` — the loops over the items of a body.
-/

namespace ScriptedPng.Block

open Diagnostic

/-- What the body of a block reads and changes. -/
structure Body where
  lexer : Lexer
  image : Image := {}
deriving DecidableEq

instance : HasRemaining Body where
  remaining body := body.lexer.remaining

/-- An action of a body, which may fail with a diagnostic; what it has changed stays changed. -/
abbrev BodyM := EStateM Diagnostic Body

/-- Reads from the source. -/
def read {α : Type} (action : LexerM α) : BodyM α := fun body =>
  match action body.lexer with
  | .ok value lexer => .ok value { body with lexer }
  | .error diagnostic lexer => .error diagnostic { body with lexer }

/-- Changes the description of the image. -/
def change (f : Image → Image) : BodyM Unit := fun body =>
  .ok () { body with image := f body.image }

/-- The description of the image. -/
def image : BodyM Image := fun body =>
  .ok body.image body

/-- Fails with a cause that has no line of its own. -/
def fail {α : Type} (cause : Cause) : BodyM α :=
  throw ⟨cause, none⟩

/-- Fails with a cause on the line of a token. -/
def failAt {α : Type} (token : Token) (cause : Cause) : BodyM α :=
  throw ⟨cause, some (.at token.line)⟩

/-- Takes over a value or a diagnostic. -/
def lift {α : Type} (result : Except Diagnostic α) : BodyM α :=
  match result with
  | .ok value => pure value
  | .error diagnostic => throw diagnostic

/-- Reads a token as a constant. -/
def readConstant {α : Type} (value : Option Token → Except Diagnostic α) : BodyM α := do
  lift (value (← read Lexer.next))

theorem forward_read {α : Type} {action : LexerM α} (h : Forward action) :
    Forward (read action) := by
  intro body value after heq
  simp only [read] at heq
  split at heq
  · rename_i hread
    injection heq with hvalue hafter
    subst hafter
    exact h _ _ _ hread
  · cases heq

theorem takes_read {α : Type} {action : LexerM (Option α)} (h : Takes action) :
    Takes (read action) where
  forward := forward_read h.forward
  remaining_lt := by
    intro body item after heq
    simp only [read] at heq
    split at heq
    · rename_i hread
      injection heq with hvalue hafter
      subst hvalue hafter
      exact h.remaining_lt _ _ _ hread
    · cases heq

theorem forward_change (f : Image → Image) : Forward (change f) := by
  rintro body _ _ ⟨⟩
  exact Nat.le_refl _

theorem forward_image : Forward image := by
  rintro body _ _ ⟨⟩
  exact Nat.le_refl _

theorem forward_fail {α : Type} (cause : Cause) : Forward (fail (α := α) cause) :=
  .throw _

theorem forward_failAt {α : Type} (token : Token) (cause : Cause) :
    Forward (failAt (α := α) token cause) :=
  .throw _

theorem forward_lift {α : Type} (result : Except Diagnostic α) : Forward (lift result) := by
  cases result
  · exact .throw _
  · exact .pure _

theorem forward_readConstant {α : Type} (value : Option Token → Except Diagnostic α) :
    Forward (readConstant value) :=
  .bind (forward_read Lexer.takes_next.forward) fun _ => forward_lift _

theorem forward_require (text : String) : Forward (read (Lexer.require text)) :=
  forward_read (Lexer.forward_require text)

/-- Handles each item of a body by the token that starts it, up to the delimiter that closes the
block. Each one is handled with the result of the one before. -/
def foldItems {α : Type} (handle : α → Token → BodyM α)
    (hforward : ∀ result token, Forward (handle result token)) (result : α) : BodyM α :=
  foldEach (read Lexer.inner) handle (takes_read Lexer.takes_inner) hforward result

theorem forward_foldItems {α : Type} (handle : α → Token → BodyM α)
    (hforward : ∀ result token, Forward (handle result token)) (result : α) :
    Forward (foldItems handle hforward result) :=
  forward_foldEach _ _ _ _ _

/-- Handles each item of a body by the token that starts it, up to the delimiter that closes the
block. -/
def forEachItem (handle : Token → BodyM Unit) (hforward : ∀ token, Forward (handle token)) :
    BodyM Unit :=
  forEach (read Lexer.inner) handle (takes_read Lexer.takes_inner) hforward

theorem forward_forEachItem (handle : Token → BodyM Unit)
    (hforward : ∀ token, Forward (handle token)) : Forward (forEachItem handle hforward) :=
  forward_forEach _ _ _ _

/-- Reads the delimiter that closes a block of a single value; the text is the keyword. -/
def close (keyword : String) : BodyM Unit := do
  match ← read Lexer.next with
  | none => fail .unexpectedEnd
  | some token => if token.Is "\x7d" then pure () else failAt token (.badToken token.text keyword)

theorem forward_close (keyword : String) : Forward (close keyword) := by
  refine .bind (forward_read Lexer.takes_next.forward) fun found => ?_
  cases found
  · exact forward_fail _
  · exact .ite (.pure _) (forward_failAt _ _)

end ScriptedPng.Block
