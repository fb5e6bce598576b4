import ScriptedPng.Compilation
import ScriptedPng.Proofs.Block.Change
import ScriptedPng.Proofs.Block.Order
import ScriptedPng.Report

/-!
# Steps of a compilation

Compiling a block reads its body, which may change the description of the image, and writes chunks,
which changes the writer only. The progress changes at the very end of a block, so a block that
fails leaves it as it is.

## Main statements

* `Compilation.outcome_read`, `Compilation.outcome_write` — what the parts of a step leave alone.
* `Compilation.maintains_body` — bodies keep what the steps of their blocks keep.
* `Compilation.outcome_block` — the ways in which a block fails, and what is left if it does not.
* `Compilation.outcome_block_at` — only a block that the guards let pass is compiled and counted.
* `Compilation.outcome_run_of_finish` — a run goes through all blocks, and then finishes.
-/

namespace ScriptedPng.Compilation

open Block Diagnostic Png

variable {α : Type}

/-- Reading changes nothing but the lexer and the image. -/
theorem outcome_read {action : BodyM α} {compilation : Compilation} {post : α → Body → Prop}
    {fault : Diagnostic → Body → Prop} (h : Outcome post fault (action compilation.toBody)) :
    Outcome (fun value after => post value after.toBody ∧
        after.progress = compilation.progress ∧ after.writer = compilation.writer)
      (fun failure after => (∃ diagnostic, failure = .diagnostic diagnostic ∧
          fault diagnostic after.toBody) ∧
        after.progress = compilation.progress ∧ after.writer = compilation.writer)
      (read action compilation) := by
  simp only [read]
  cases hresult : action compilation.toBody with
  | ok value body =>
    rw [hresult] at h
    exact ⟨h, rfl, rfl⟩
  | error diagnostic body =>
    rw [hresult] at h
    exact ⟨⟨diagnostic, rfl, h⟩, rfl, rfl⟩

/-- Writing changes nothing but the writer. -/
theorem outcome_write {action : WriterM α} {compilation : Compilation} {post : α → Writer → Prop}
    {fault : Failure → Writer → Prop} (h : Outcome post fault (action compilation.writer)) :
    Outcome (fun value after => post value after.writer ∧
        after.progress = compilation.progress ∧ after.toBody = compilation.toBody)
      (fun failure after => fault failure after.writer ∧
        after.progress = compilation.progress ∧ after.toBody = compilation.toBody)
      (write action compilation) := by
  simp only [write]
  cases hresult : action compilation.writer with
  | ok value writer =>
    rw [hresult] at h
    exact ⟨h, rfl, rfl⟩
  | error failure writer =>
    rw [hresult] at h
    exact ⟨h, rfl, rfl⟩

theorem succeeds_read {action : BodyM α} {compilation : Compilation} {post : α → Body → Prop}
    (h : Succeeds post (action compilation.toBody)) :
    Succeeds (fun value after => post value after.toBody ∧
        after.progress = compilation.progress ∧ after.writer = compilation.writer)
      (read action compilation) :=
  (outcome_read h).mono_fault fun _ _ h => h.1.elim fun _ h => h.2

theorem succeeds_write {action : WriterM α} {compilation : Compilation} {post : α → Writer → Prop}
    (h : Succeeds post (action compilation.writer)) :
    Succeeds (fun value after => post value after.writer ∧
        after.progress = compilation.progress ∧ after.toBody = compilation.toBody)
      (write action compilation) :=
  (outcome_write h).mono_fault fun _ _ h => h.1

theorem startPixels_eq (compilation : Compilation) : startPixels compilation =
    (if compilation.progress.hasPixels then pure ()
      else write (Writer.writeInfo compilation.image)) compilation := rfl

/-! ## What bodies leave alone -/

variable {invariant : Image → Prop} {progress : Progress}

/-- The blocks counted are the given ones, and something is true of the image. -/
def At (progress : Progress) (invariant : Image → Prop) (compilation : Compilation) : Prop :=
  compilation.progress = progress ∧ invariant compilation.image

theorem maintains_read {action : BodyM α} (h : Keeps invariant action) :
    Maintains (At progress invariant) (read action) := by
  rintro compilation ⟨hprogress, hinvariant⟩
  refine (outcome_read (h compilation.toBody hinvariant)).mono ?_ ?_
  · rintro _ after ⟨⟨-, h⟩, heq, -⟩
    exact ⟨trivial, heq.trans hprogress, h⟩
  · rintro _ after ⟨⟨_, -, -, h⟩, heq, -⟩
    exact ⟨trivial, heq.trans hprogress, h⟩

theorem maintains_write (action : WriterM α) :
    Maintains (At progress invariant) (write action) := by
  rintro compilation ⟨hprogress, hinvariant⟩
  have htrue : Outcome (fun _ _ => True) (fun _ _ => True) (action compilation.writer) := by
    cases action compilation.writer <;> trivial
  refine (outcome_write htrue).mono ?_ ?_
  · rintro _ after ⟨-, heq, hbody⟩
    exact ⟨trivial, heq.trans hprogress, show invariant after.toBody.image from hbody ▸ hinvariant⟩
  · rintro _ after ⟨-, heq, hbody⟩
    exact ⟨trivial, heq.trans hprogress, show invariant after.toBody.image from hbody ▸ hinvariant⟩

theorem maintains_get : Maintains (At progress invariant) (get : CompileM Compilation) :=
  fun _ h => ⟨trivial, h⟩

theorem maintains_startPixels : Maintains (At progress invariant) startPixels :=
  .bind maintains_get fun _ _ => .ite (fun _ => .pure trivial) fun _ => maintains_write _

theorem maintains_collect (alphabet : Segment.Alphabet) :
    Maintains (At progress invariant) (read (Block.read (Lexer.collect alphabet))) :=
  maintains_read (keeps_read _)

/-- Whatever becomes of the body of a block, no block is counted, and the image keeps what all steps
of the block keep. -/
theorem maintains_body {keyword : Keyword} (h : Closed keyword invariant) :
    Maintains (At progress invariant) (body keyword) := by
  cases keyword with
  | header => exact maintains_read (keeps_header h)
  | palette => exact maintains_read (keeps_palette h)
  | chromaticities => exact maintains_read (keeps_chromaticities h)
  | gamma => exact maintains_read (keeps_gamma h)
  | intent => exact maintains_read (keeps_intent h)
  | data =>
    exact .bind maintains_startPixels fun _ _ => .bind (maintains_collect _) fun _ _ =>
      maintains_write _
  | pixels =>
    exact .bind maintains_get fun _ _ => .bind maintains_startPixels fun _ _ =>
      .bind (maintains_collect _) fun _ _ =>
      .ite (fun _ => maintains_write _) fun _ => .throw trivial
  | _ => exact .throw trivial

theorem keeps_openBody : Keeps invariant openBody := by
  refine .bind (keeps_read _) ?_
  intro found _
  cases found
  · exact keeps_fail _
  · exact .ite (fun _ => .pure trivial) fun _ => keeps_failAt _ _

/-! ## Blocks -/

/-- A block fails at its keyword, at the delimiter that opens its body, at the guards, or in its
body; else it is counted. -/
theorem outcome_block {token : Token} {compilation : Compilation} {opened : Body → Prop}
    {fault : Failure → Compilation → Prop} (post : Keyword → Compilation → Prop)
    (hunknown : keyword? token = none →
      fault (.diagnostic ⟨.unknownBlock token.text, some (.at token.line)⟩) compilation)
    (hopen : Outcome (fun _ body => opened body)
      (fun diagnostic body => fault (.diagnostic diagnostic) { compilation with toBody := body })
      (openBody compilation.toBody))
    (hcheck : ∀ keyword body cause, keyword? token = some keyword → opened body →
      compilation.progress.check body.image.color keyword = .error cause →
      fault (.ofCause cause) { compilation with toBody := body })
    (hbody : ∀ keyword body, keyword? token = some keyword → opened body →
      compilation.progress.check body.image.color keyword = .ok () →
      Outcome (fun _ after => post keyword { after with progress := after.progress.add keyword })
        fault (Compilation.body keyword { compilation with toBody := body })) :
    Outcome (fun _ after => ∃ keyword, keyword? token = some keyword ∧ post keyword after) fault
      (block token compilation) := by
  cases hkeyword : keyword? token with
  | none =>
    simp only [block, hkeyword]
    exact hunknown hkeyword
  | some keyword =>
    simp only [block, hkeyword]
    have hread : Outcome (fun _ after => ∃ body, opened body ∧
        after = { compilation with toBody := body }) fault (read openBody compilation) := by
      simp only [read]
      cases hresult : openBody compilation.toBody with
      | ok _ body =>
        rw [hresult] at hopen
        exact ⟨body, hopen, rfl⟩
      | error diagnostic body =>
        rw [hresult] at hopen
        exact hopen
    refine .bind hread ?_
    intro _ middle hmiddle
    obtain ⟨body, hopened, rfl⟩ := hmiddle
    change Outcome _ _ ((verify (compilation.progress.check body.image.color keyword) >>= _) _)
    cases hresult : compilation.progress.check body.image.color keyword with
    | error cause => exact .throw (hcheck keyword body cause hkeyword hopened hresult)
    | ok _ =>
      change Outcome _ _ ((Compilation.body keyword >>= _) _)
      refine .bind (hbody keyword body hkeyword hopened hresult) ?_
      intro _ after hafter
      exact ⟨keyword, rfl, hafter⟩

/-- A block is compiled only if the guards let it pass, and is counted then. The image keeps what
all steps of all such blocks keep. -/
theorem outcome_block_at {token : Token} {compilation : Compilation}
    (hclosed : ∀ keyword, compilation.progress.check compilation.image.color keyword = .ok () →
      Closed keyword invariant)
    (h : invariant compilation.image) :
    Outcome (fun _ after => ∃ keyword, keyword? token = some keyword ∧
        compilation.progress.check compilation.image.color keyword = .ok () ∧
        At (compilation.progress.add keyword) invariant after)
      (fun _ after => At compilation.progress invariant after) (block token compilation) := by
  -- The delimiter that opens the body leaves the image as it is.
  have hsame : Keeps (· = compilation.image) openBody := keeps_openBody
  have hopen := hsame compilation.toBody rfl
  refine outcome_block
    (fun keyword after => compilation.progress.check compilation.image.color keyword = .ok () ∧
      At (compilation.progress.add keyword) invariant after)
    (fun _ => ⟨rfl, h⟩) (hopen.mono (fun _ _ h => h.2) ?_) ?_ ?_
  · rintro _ body ⟨-, himage⟩
    exact ⟨rfl, show invariant body.image from himage ▸ h⟩
  · rintro keyword body cause - himage -
    exact ⟨rfl, show invariant body.image from himage ▸ h⟩
  · rintro keyword body - himage hcheck
    rw [himage] at hcheck
    have hbody : Maintains (At compilation.progress invariant) (Compilation.body keyword) :=
      maintains_body (hclosed keyword hcheck)
    refine (hbody { compilation with toBody := body }
      ⟨rfl, show invariant body.image from himage ▸ h⟩).mono ?_ fun _ _ h => h.2
    rintro _ after ⟨-, hprogress, hinvariant⟩
    exact ⟨hcheck, congrArg (Progress.add keyword) hprogress, hinvariant⟩

/-! ## Runs -/

theorem finish_eq (compilation : Compilation) : finish compilation =
    (do verify (compilation.progress.checkEnd compilation.image.color)
        write Writer.writeEnd : CompileM Unit) compilation := rfl

/-- Something is written at the end of the source, if the check passes. -/
theorem outcome_verify {action : WriterM Unit} {compilation : Compilation}
    {post : Unit → Compilation → Prop} {fault : Failure → Compilation → Prop}
    (hcheck : ∀ cause, compilation.progress.checkEnd compilation.image.color = .error cause →
      fault (.ofCause cause) compilation)
    (hwrite : compilation.progress.checkEnd compilation.image.color = .ok () →
      Outcome post fault (write action compilation)) :
    Outcome post fault ((do verify (compilation.progress.checkEnd compilation.image.color)
                            write action) compilation) := by
  cases hend : compilation.progress.checkEnd compilation.image.color with
  | error cause => exact .throw (hcheck cause hend)
  | ok _ => exact hwrite hend

/-- What is left of a run when all blocks have been compiled. -/
def conclude : CompileM Unit := fun compilation =>
  match finish compilation with
  | .error failure after => .error (failure.withLine .ending) after
  | .ok () after => .ok () after

theorem run_eq (compilation : Compilation) : run compilation =
    match blocks compilation with
    | .error failure after => .error (failure.withLine (.at after.lexer.line)) after
    | .ok () after => conclude after := rfl

/-- A run goes through all blocks, and then finishes. A failure is given a line. -/
theorem outcome_run_of_finish {compilation : Compilation} {middle : Compilation → Prop}
    {post : Unit → Compilation → Prop} {fault goal : Failure → Compilation → Prop}
    (hblocks : Outcome (fun _ after => middle after) fault (blocks compilation))
    (hfinish : ∀ after, middle after → Outcome post fault (finish after))
    (hfault : ∀ failure line after, fault failure after → goal (failure.withLine line) after) :
    Outcome post goal (run compilation) := by
  unfold run
  cases hresult : blocks compilation with
  | error failure after =>
    rw [hresult] at hblocks
    exact hfault _ _ _ hblocks
  | ok _ after =>
    rw [hresult] at hblocks
    have hdone := hfinish after hblocks
    dsimp only
    cases hlast : finish after with
    | error failure last =>
      rw [hlast] at hdone
      exact hfault _ _ _ hdone
    | ok _ last =>
      rw [hlast] at hdone
      exact hdone

/-- Compiling is a run from the start of the source. -/
theorem compile_eq (source : Source) (sink : Sink) :
    compile source sink = ended (run (.ofSource source sink)) := by
  unfold compile
  cases run (.ofSource source sink) <;> rfl

end ScriptedPng.Compilation
