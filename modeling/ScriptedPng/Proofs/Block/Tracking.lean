import ScriptedPng.Block.Chromaticities
import ScriptedPng.Block.Gamma
import ScriptedPng.Block.Header
import ScriptedPng.Block.Intent
import ScriptedPng.Block.Palette
import ScriptedPng.Proofs.Lexer.Behind

/-!
# Bodies of blocks on two lexers

A relation between two lexers that reading keeps is kept by the bodies of blocks as well: they
change the image in the same way, up to where the second lexer has lost the first one.

## Main definitions

* `Block.InStep`, `Block.Lost` — two bodies with lexers that are related, or have lost each other.
* `Block.GoesAlong` — an action of a body on the two of them.

## Main statements

* `Block.tracks_header`, `Block.tracks_palette`, … — bodies go along.
-/

namespace ScriptedPng.Block

open Diagnostic

variable {step : Lexer → Lexer → Prop} {lost : Lexer → Diagnostic → Lexer → Prop} {α : Type}

/-- The lexers are in step, and the images are the same. -/
structure InStep (step : Lexer → Lexer → Prop) (first second : Body) : Prop where
  lexer : step first.lexer second.lexer
  image : second.image = first.image

/-- The second lexer has lost the first one. -/
def Lost (lost : Lexer → Diagnostic → Lexer → Prop) (first : Body) (diagnostic : Diagnostic)
    (second : Body) : Prop :=
  lost first.lexer diagnostic second.lexer

/-- An action goes along with itself on two lexers. -/
abbrev GoesAlong (step : Lexer → Lexer → Prop) (lost : Lexer → Diagnostic → Lexer → Prop)
    (action : BodyM α) : Prop :=
  Tracks (InStep step) (Lost lost) Eq action action

theorem tracks_read {action : LexerM α} (h : Tracks step lost Eq action action) :
    GoesAlong step lost (read action) where
  lockstep first second hstep := by
    have haction := h.lockstep _ _ hstep.lexer
    simp only [read]
    cases hfirst : action first.lexer <;> cases hsecond : action second.lexer <;>
      rw [hfirst, hsecond] at haction
    · exact ⟨haction.1, haction.2, hstep.image⟩
    · exact haction
    · exact haction.elim
    · exact haction.imp (fun hfault => ⟨hfault.1, hfault.2, hstep.image⟩) id
  stays diagnostic second first hlost := by
    have haction := h.stays diagnostic second.lexer first.lexer hlost
    simp only [read]
    cases hfirst : action first.lexer <;> rw [hfirst] at haction <;> exact haction

theorem tracks_change (f : Image → Image) : GoesAlong step lost (change f) where
  lockstep _ _ hstep := ⟨rfl, hstep.lexer, congrArg f hstep.image⟩
  stays _ _ _ hlost := ⟨trivial, hlost⟩

theorem tracks_image : GoesAlong step lost image where
  lockstep _ _ hstep := ⟨hstep.image.symm, hstep⟩
  stays _ _ _ hlost := ⟨trivial, hlost⟩

theorem tracks_fail (cause : Cause) : GoesAlong step lost (fail cause : BodyM α) :=
  .throw _

theorem tracks_failAt (token : Token) (cause : Cause) :
    GoesAlong step lost (failAt (α := α) token cause) :=
  .throw _

theorem tracks_lift (result : Except Diagnostic α) : GoesAlong step lost (lift result) := by
  cases result with
  | ok value => exact .pure rfl
  | error diagnostic => exact .throw _

section

variable (h : Lexer.Tracking step lost)
include h

theorem tracks_next : GoesAlong step lost (read Lexer.next) :=
  tracks_read h.next

theorem tracks_require (text : String) : GoesAlong step lost (read (Lexer.require text)) :=
  tracks_read (h.require text)

theorem tracks_readConstant (value : Option Token → Except Diagnostic α) :
    GoesAlong step lost (readConstant value) :=
  .bind_eq (tracks_next h) fun _ => tracks_lift _

theorem tracks_foldItems {handle : α → Token → BodyM α}
    {hforward : ∀ result token, Forward (handle result token)}
    (hhandle : ∀ result token, GoesAlong step lost (handle result token)) (result : α) :
    GoesAlong step lost (foldItems handle hforward result) :=
  .foldEach (tracks_read h.inner) hhandle result

theorem tracks_close (keyword : String) : GoesAlong step lost (close keyword) := by
  refine .bind_eq (tracks_next h) fun found => ?_
  cases found with
  | none => exact tracks_fail _
  | some token => exact .ite Iff.rfl (.pure rfl) (tracks_failAt _ _)

/-! ## Bodies -/

theorem tracks_gamma : GoesAlong step lost gamma :=
  .bind_eq (tracks_readConstant h _) fun _ => .bind_eq (tracks_change _) fun _ =>
    .bind_eq (tracks_close h _) fun _ => tracks_change _

theorem tracks_intent : GoesAlong step lost intent := by
  have hintent : GoesAlong step lost readIntent :=
    .bind_eq (tracks_next h) fun _ => .bind_eq (tracks_lift _) fun _ =>
      .ite Iff.rfl (.pure rfl) (.throw _)
  exact .bind_eq hintent fun _ => .bind_eq (tracks_close h _) fun _ => tracks_change _

theorem tracks_readPoint (given : List Primary) (token : Token) :
    GoesAlong step lost (Chromaticities.readPoint given token) := by
  have hcoordinates : GoesAlong step lost Chromaticities.readCoordinates :=
    .bind_eq (tracks_require h _) fun _ => .bind_eq (tracks_readConstant h _) fun _ =>
      .bind_eq (tracks_require h _) fun _ => .bind_eq (tracks_readConstant h _) fun _ =>
      .bind_eq (tracks_require h _) fun _ => .pure rfl
  unfold Chromaticities.readPoint
  split
  · exact tracks_failAt _ _
  · exact .bind_eq hcoordinates fun _ => .bind_eq (tracks_change _) fun _ => .pure rfl

theorem tracks_chromaticities : GoesAlong step lost chromaticities :=
  .bind_eq (tracks_foldItems h (tracks_readPoint h) _) fun _ =>
    .ite Iff.rfl (tracks_change _) (tracks_fail _)

theorem tracks_setting (token : Token) : GoesAlong step lost (Header.setting token) := by
  have hconstant (value : Option Token → Except Diagnostic Nat) (f : Nat → Header.Setting) :
      GoesAlong step lost (f <$> readConstant value) :=
    .bind_eq (tracks_readConstant h _) fun _ => .pure rfl
  exact .ite Iff.rfl (hconstant _ _) <| .ite Iff.rfl (hconstant _ _) <|
    .ite Iff.rfl (hconstant _ _) <| .ite Iff.rfl (.pure rfl) <| .ite Iff.rfl (.pure rfl) <|
    .ite Iff.rfl (.pure rfl) <| .ite Iff.rfl (.pure rfl) <| .ite Iff.rfl (.pure rfl) <|
    tracks_failAt _ _

theorem tracks_header : GoesAlong step lost header := by
  refine .bind_eq (tracks_change _) fun _ => ?_
  refine .bind_eq (tracks_foldItems h (fun _ token => ?_) ()) fun _ => ?_
  · exact .bind_eq (tracks_setting h token) fun _ => tracks_change _
  · exact .bind_eq tracks_image fun _ => .ite Iff.rfl (tracks_fail _) <|
      .ite Iff.rfl (tracks_fail _) (.pure rfl)

theorem tracks_readEntry (token : Token) : GoesAlong step lost (Palette.readEntry token) := by
  have hcolors : GoesAlong step lost Palette.readColors :=
    .bind_eq (tracks_readConstant h _) fun _ => .bind_eq (tracks_require h _) fun _ =>
      .bind_eq (tracks_readConstant h _) fun _ => .bind_eq (tracks_require h _) fun _ =>
      .bind_eq (tracks_readConstant h _) fun _ => .bind_eq (tracks_require h _) fun _ =>
      .pure rfl
  refine .ite Iff.rfl (.bind_eq tracks_image fun _ => .ite Iff.rfl ?_ ?_) (tracks_failAt _ _)
  · exact tracks_failAt _ _
  · exact .bind_eq hcolors fun _ => tracks_change _

theorem tracks_palette : GoesAlong step lost palette :=
  .bind_eq (tracks_foldItems h (fun _ => tracks_readEntry h) ()) fun _ => tracks_change _

end

end ScriptedPng.Block
