import ScriptedPng.Proofs.Block.Places
import ScriptedPng.Proofs.Png.Appends
import ScriptedPng.Proofs.Run

/-!
# The lines of diagnostics

Each diagnostic that a run gives has a line. It is the end if and only if all blocks have been
compiled; otherwise it is a line of the source, and what the diagnostic is about stands there.

## Main definitions

* `Compilation.Locates` — the diagnostics of an action belong to the places reached.

## Main statements

* `Compilation.locates_blocks` — so do those of all blocks.
* `lines_right` — the lines of tokens and of diagnostics are right.
-/

namespace ScriptedPng

open Block Diagnostic Lexer Png

namespace Compilation

open Failure

-- Statements about writing a chunk are not to be unfolded into running the writer.
attribute [local irreducible] Writer.writeChunk

variable {chars : List Char} {α : Type} {before : Lexer → Prop} {post : α → Lexer → Prop}

/-- The failure belongs to the place reached, if it is a diagnostic. -/
def Belongs (chars : List Char) (failure : Failure) (after : Lexer) : Prop :=
  ∀ diagnostic, failure = .diagnostic diagnostic → Diagnostic.Belongs chars diagnostic after

/-- The action leads from one condition on the lexer to another one, and its failures
belong to the places reached. -/
abbrev Locates (chars : List Char) (before : Lexer → Prop) (post : α → Lexer → Prop)
    (action : CompileM α) : Prop :=
  Leads (fun compilation => before compilation.lexer) (fun value after => post value after.lexer)
    (fun failure after => Belongs chars failure after.lexer) action

/-- The action goes on from a place in the source to another one, and its failures belong there. -/
abbrev StaysOn (chars : List Char) (action : CompileM α) : Prop :=
  Locates chars (OnSource chars) (fun _ => OnSource chars) action

theorem belongs_of_blameless {cause : Cause} {lexer : Lexer} (h : cause.Blameless)
    (hsource : OnSource chars lexer) : Belongs chars (.ofCause cause) lexer := by
  rintro _ ⟨⟩
  exact hsource.belongs h

theorem belongs_of_unlined {failure : Failure} {lexer : Lexer} (h : failure.Unlined)
    (hsource : OnSource chars lexer) : Belongs chars failure lexer := by
  rintro ⟨cause, line⟩ rfl
  obtain ⟨rfl, hcategory⟩ := h _ rfl
  exact hsource.belongs (Cause.blameless_of .backend hcategory (by decide))

theorem locates_read {action : BodyM α} (h : Block.Locates chars before post action) :
    Locates chars before post (read action) := by
  intro compilation hcompilation
  refine (outcome_read (h compilation.toBody hcompilation)).mono (fun _ _ h => h.1) ?_
  rintro _ after ⟨⟨diagnostic, rfl, hbelongs⟩, -, -⟩ _ ⟨⟩
  exact hbelongs

/-- Writing leaves the lexer where it is. -/
theorem locates_write {action : WriterM α} (h : Writer.Appends [] action) :
    StaysOn chars (write action) := by
  intro compilation hcompilation
  refine (outcome_write (h compilation.writer List.nil_prefix)).mono ?_ ?_
  · rintro _ after ⟨-, -, hbody⟩
    rwa [hbody]
  · rintro failure after ⟨⟨hunlined, -⟩, -, hbody⟩
    refine belongs_of_unlined hunlined ?_
    rwa [hbody]

theorem locates_verify {result : Except Cause Unit}
    (h : ∀ cause, result = .error cause → cause.Blameless) :
    StaysOn chars (verify result) := by
  cases result with
  | ok _ => exact .pure fun _ h => h
  | error cause =>
    exact .throw fun _ => belongs_of_blameless (h cause rfl)

theorem locates_get : Locates chars before (fun _ => before) (get : CompileM Compilation) :=
  fun _ h => h

theorem locates_startPixels :
    StaysOn chars startPixels :=
  .bind locates_get fun _ => .ite (fun _ => .pure fun _ h => h) fun _ =>
    locates_write (Writer.appends_writeInfo _)

theorem locates_collect (alphabet : Segment.Alphabet) :
    StaysOn chars (read (Block.read (Lexer.collect alphabet))) :=
  locates_read (Block.locates_read fun _ h => outcome_collect_onSource h alphabet)

theorem locates_data : StaysOn chars data :=
  .bind locates_startPixels fun _ => .bind (locates_collect _) fun octets =>
    locates_write (Writer.appends_writeChunk dataType (octetField octets))

theorem locates_pixels : StaysOn chars pixels := by
  have hsize (actual : Nat) (expected : Int) : (Cause.sizeMismatch actual expected).Blameless :=
    Cause.blameless_of .sizeMismatch rfl (by decide)
  refine .bind locates_get fun _ => .bind locates_startPixels fun _ => ?_
  refine .bind (locates_collect _) fun octets => .ite (fun _ => ?_) fun _ => ?_
  · exact locates_write (Writer.appends_writeImage _ _)
  · exact .throw fun _ => belongs_of_blameless (hsize _ _)

theorem locates_body (keyword : Keyword) :
    StaysOn chars (body keyword) := by
  unfold body
  split
  · exact locates_read locates_header
  · exact locates_read locates_palette
  · exact locates_read locates_chromaticities
  · exact locates_read locates_gamma
  · exact locates_read locates_intent
  · exact locates_data
  · exact locates_pixels
  · exact .throw fun _ => belongs_of_blameless (Cause.blameless_of .unsupported rfl (by decide))

theorem locates_openBody :
    Block.StaysOn chars openBody := by
  refine .bind locates_next ?_
  intro found
  cases found with
  | none => exact (locates_fail (by decide)).weaken fun _ h => h.1
  | some token =>
    refine .ite (fun _ => .pure fun _ h => h.1) fun hbrace => ?_
    have hblames : Cause.missingDelimiter.Blames token := hbrace
    exact (locates_failAt hblames (.inr (by decide))).weaken fun _ h => h.2 token rfl

/-- The guards are about repetition, support, order and colors. -/
theorem category_of_check {progress : Progress} {color : ColorFlags} {keyword : Keyword}
    {cause : Cause} (h : progress.check color keyword = .error cause) :
    cause.category ∈ [.repeatedBlock, .unsupported, .ordering, .colorType] := by
  obtain ⟨c, hmem, rfl⟩ := Progress.exists_of_firstOf h
  obtain hmem | hmem := List.mem_append.1 hmem
  · grind [Cause.category]
  · unfold Progress.faults at hmem
    grind [Cause.category]

/-- The guards are not about a token. -/
theorem blameless_of_check {progress : Progress} {color : ColorFlags} {keyword : Keyword}
    {cause : Cause} (h : progress.check color keyword = .error cause) : cause.Blameless := by
  have hcategory := category_of_check h
  revert hcategory
  unfold Cause.Blameless
  generalize cause.category = category
  cases category <;> decide

theorem locates_block (token : Token) :
    Locates chars (OnToken chars token) (fun _ => OnSource chars) (block token) := by
  unfold block
  split
  · exact locates_read (locates_failAt (by rfl) (.inr (by simp [Cause.category, tokenCategories])))
  · refine .bind (locates_read (locates_of_onSource locates_openBody)) fun _ =>
      .bind locates_get fun _ => .bind (locates_verify fun _ => blameless_of_check) fun _ =>
      .bind (locates_body _) fun _ => ?_
    exact fun _ h => h

/-- The diagnostics of all blocks belong to the places reached. -/
theorem locates_blocks : StaysOn chars blocks := by
  intro compilation h
  refine Outcome.foldEach (fun _ compilation => OnSource chars compilation.lexer)
    (fun _ token compilation => OnToken chars token compilation.lexer) h ?_
    fun _ token => locates_block token
  intro _ compilation hsource
  refine (locates_read locates_next compilation hsource).mono_post ?_
  intro found after hfound
  cases found with
  | none => exact hfound.1
  | some token => exact hfound.2 token rfl

/-! ## Runs -/

/-- What fails at the end of the source has no line of its own. -/
theorem outcome_finish_unlined (compilation : Compilation) :
    Outcome (fun _ _ => True)
      (fun failure _ => ∀ diagnostic, failure = .diagnostic diagnostic → diagnostic.line = none)
      (finish compilation) := by
  rw [finish_eq]
  refine outcome_verify (fun cause _ => ?_) fun _ => ?_
  · rintro _ ⟨⟩
    rfl
  · refine (outcome_write (Writer.appends_writeEnd compilation.writer List.nil_prefix)).mono
      (fun _ _ _ => trivial) ?_
    intro failure after hfailure diagnostic hdiagnostic
    exact (hfailure.1.1 diagnostic hdiagnostic).1

/-- A diagnostic is given a line: the end if all blocks have been compiled, or else one on which it
is placed. -/
theorem exists_line {compilation after : Compilation} {diagnostic : Diagnostic}
    (hsource : OnSource chars compilation.lexer)
    (h : run compilation = .error (.diagnostic diagnostic) after) :
    ∃ line, diagnostic.line = some line ∧
      (line = .ending ↔ ∃ middle, blocks compilation = .ok () middle ∧
        finish middle = .error (.ofCause diagnostic.cause) after) ∧
      (line ≠ .ending → Placed chars diagnostic.cause line after.lexer) := by
  have hblocks := locates_blocks compilation hsource
  rw [run] at h
  cases hresult : blocks compilation with
  | error failure middle =>
    rw [hresult] at h hblocks
    obtain ⟨hfailure, rfl⟩ : failure.withLine (.at middle.lexer.line) = .diagnostic diagnostic ∧
        middle = after := by simpa using h
    cases failure <;> cases hfailure
    rename_i found
    have hbelongs := hblocks found rfl
    refine ⟨_, rfl, ⟨fun hending => ?_, by simp⟩, fun _ => hbelongs⟩
    obtain ⟨number, hnumber, -⟩ := hbelongs.number
    cases hnumber.symm.trans hending
  | ok _ middle =>
    rw [hresult] at h
    have hfinish := outcome_finish_unlined middle
    cases hlast : finish middle with
    | ok _ last => simp [hlast] at h
    | error failure last =>
      rw [hlast] at hfinish
      simp only [hlast] at h
      obtain ⟨hfailure, rfl⟩ : failure.withLine .ending = .diagnostic diagnostic ∧
          last = after := by simpa using h
      cases failure <;> cases hfailure
      rename_i found
      obtain ⟨cause, line⟩ := found
      obtain rfl : line = none := hfinish _ rfl
      refine ⟨.ending, rfl, ?_, fun h => (h rfl).elim⟩
      simp [hlast, Failure.ofCause, Diagnostic.withLine]

end Compilation

/-- After any calls of the lexer that succeed, its line is the one that the characters read lead to,
and each token that it gives then is on the line where it starts. The line of a diagnostic is the
end if and only if the check at the end or writing the end has failed; otherwise it is a line of the
source, and what the diagnostic is about stands there. -/
theorem lines_right (chars : List Char) (fault : Option String) (sink : Sink) :
    (∀ lexer, Reaches (.ofSource { Source.ofChars chars with fault }) lexer →
      ∃ done rest, chars = done ++ rest ∧ At done rest lexer ∧
        ∀ token after, Obtains lexer token after →
          ∃ gap more rest', rest = gap ++ (more ++ rest') ∧ IsGap gap ∧
            JustRead (done ++ gap) (done ++ gap ++ more) rest' token ∧
            At (done ++ gap ++ more) rest' after) ∧
    ∀ diagnostic after, compile { Source.ofChars chars with fault } sink =
        (.error (.diagnostic diagnostic), after) →
      ∃ line, diagnostic.line = some line ∧
        (line = .ending ↔ ∃ middle,
          Compilation.blocks (.ofSource { Source.ofChars chars with fault } sink) = .ok () middle ∧
          Compilation.finish middle = .error (.ofCause diagnostic.cause) after) ∧
        (line ≠ .ending → Placed chars diagnostic.cause line after.lexer) := by
  refine ⟨fun lexer hreaches => ?_, fun diagnostic after h => ?_⟩
  · obtain ⟨done, rest, hchars, hat⟩ := onward_of_reaches (at_ofSource chars fault) hreaches
    refine ⟨done, rest, hchars, by simpa using hat, fun token after hobtains => ?_⟩
    cases advance_of_next hat hobtains.next_eq with
    | token hrest hgap hread htoken hafter =>
      exact ⟨_, _, _, hrest, hgap, hread, hafter⟩
  · have hsource : OnSource chars (Lexer.ofSource { Source.ofChars chars with fault }) :=
      ⟨[], chars, rfl, at_ofSource chars fault⟩
    refine Compilation.exists_line hsource ?_
    rw [Compilation.compile_eq] at h
    cases hrun : Compilation.run (.ofSource { Source.ofChars chars with fault } sink) with
    | ok _ _ => simp [hrun, ended] at h
    | error failure last => simp_all [ended]

end ScriptedPng
