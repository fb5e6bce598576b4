import ScriptedPng.Proofs.Block.Tracking
import ScriptedPng.Proofs.Places

/-!
# Sources with faults

Reading may fail after some characters of a source. A run on such a source goes along with the run
on the source without the fault until it asks for something behind the fault; then it breaks off.

## Main definitions

* `Source.withEnd` — the source with its end marked.
* `Compilation.Paired.InStep`, `Compilation.Paired.Lost` — two compilations with lexers that are
  related, or have lost each other.

## Main statements

* `Compilation.Paired.tracks_blocks` — compiling all blocks goes along.
* `compile_failingAfter` — what a fault of the source makes of a run.
-/

namespace ScriptedPng

open Block Diagnostic Lexer Png

namespace Compilation.Paired

-- Statements about writing a chunk are not to be unfolded into running the writer.
attribute [local irreducible] Writer.writeChunk

variable {step : Lexer → Lexer → Prop} {lost : Lexer → Diagnostic → Lexer → Prop} {α : Type}

/-- The compilations differ in their lexers only, which are in step. -/
structure InStep (step : Lexer → Lexer → Prop) (first second : Compilation) : Prop where
  body : Block.InStep step first.toBody second.toBody
  progress : second.progress = first.progress
  writer : second.writer = first.writer

/-- The second lexer has lost the first one, and the first compilation goes on with the writes of
the second one. -/
structure Lost (lost : Lexer → Diagnostic → Lexer → Prop) (first : Compilation) (failure : Failure)
    (second : Compilation) : Prop where
  lexer : ∃ diagnostic, failure = .diagnostic diagnostic ∧
    lost first.lexer diagnostic second.lexer
  written : second.writer.sink.written <+: first.writer.sink.written

/-- An action goes along with itself on two lexers. -/
abbrev GoesAlong (step : Lexer → Lexer → Prop) (lost : Lexer → Diagnostic → Lexer → Prop)
    (related : α → α → Prop) (action : CompileM α) : Prop :=
  Tracks (InStep step) (Lost lost) related action action

theorem tracks_read {action : BodyM α} (h : Block.GoesAlong step lost action) :
    GoesAlong step lost Eq (read action) where
  lockstep first second hstep := by
    have haction := h.lockstep _ _ hstep.body
    simp only [read]
    cases hfirst : action first.toBody <;> cases hsecond : action second.toBody <;>
      rw [hfirst, hsecond] at haction
    · exact ⟨haction.1, haction.2, hstep.progress, hstep.writer⟩
    · exact ⟨⟨_, rfl, haction⟩, by simp [hstep.writer]⟩
    · exact haction.elim
    · obtain ⟨rfl, hbody⟩ | hlost := haction
      · exact .inl ⟨rfl, hbody, hstep.progress, hstep.writer⟩
      · exact .inr ⟨⟨_, rfl, hlost⟩, by simp [hstep.writer]⟩
  stays failure second first hlost := by
    obtain ⟨⟨diagnostic, rfl, hlexer⟩, hwritten⟩ := hlost
    have haction := h.stays diagnostic second.toBody first.toBody hlexer
    simp only [read]
    cases hfirst : action first.toBody <;> rw [hfirst] at haction
    · exact ⟨trivial, ⟨_, rfl, haction.2⟩, hwritten⟩
    · exact ⟨trivial, ⟨_, rfl, haction.2⟩, hwritten⟩

theorem tracks_write {action : WriterM α} (h : ∀ base, Writer.Appends base action) :
    GoesAlong step lost Eq (write action) where
  lockstep first second hstep := by
    simp only [write, hstep.writer]
    cases action first.writer with
    | ok value writer => exact ⟨rfl, hstep.body, hstep.progress, rfl⟩
    | error failure writer => exact .inl ⟨rfl, hstep.body, hstep.progress, rfl⟩
  stays failure second first hlost := by
    have haction := h second.writer.sink.written first.writer hlost.written
    simp only [write]
    cases hfirst : action first.writer <;> rw [hfirst] at haction
    · exact ⟨trivial, hlost.lexer, haction.2⟩
    · exact ⟨trivial, hlost.lexer, haction.2⟩

/-- What comes after the state has been looked at may depend on all of it but the lexer. -/
theorem tracks_get_bind {β : Type} {next : Compilation → CompileM β}
    (h : ∀ first second, InStep step first second → next second = next first)
    (hnext : ∀ compilation, GoesAlong step lost Eq (next compilation)) :
    GoesAlong step lost Eq (do next (← get)) := by
  have hget : GoesAlong step lost (InStep step) (get : CompileM Compilation) :=
    ⟨fun _ _ hstep => ⟨hstep, hstep⟩, fun _ _ _ hlost => ⟨trivial, hlost⟩⟩
  refine .bind hget (fun first second hstep => ?_) fun compilation => (hnext compilation).stays
  rw [h first second hstep]
  exact hnext first

theorem tracks_verify (result : Except Cause Unit) : GoesAlong step lost Eq (verify result) := by
  cases result with
  | error cause => exact .throw _
  | ok _ => exact .pure rfl

theorem tracks_startPixels : GoesAlong step lost Eq startPixels := by
  refine tracks_get_bind (fun first second hstep => ?_) fun compilation => ?_
  · rw [hstep.progress, hstep.body.image]
  · exact .ite Iff.rfl (.pure rfl) (tracks_write fun _ => Writer.appends_writeInfo _)

/-- Counting a block goes along. -/
theorem tracks_add (keyword : Keyword) : GoesAlong step lost Eq (modify fun compilation =>
    { compilation with progress := compilation.progress.add keyword }) where
  lockstep _ _ hstep :=
    ⟨rfl, hstep.body, congrArg (Progress.add keyword) hstep.progress, hstep.writer⟩
  stays _ _ _ hlost := ⟨trivial, hlost.lexer, hlost.written⟩

/-- Completing the image goes along. -/
theorem tracks_finish : GoesAlong step lost Eq finish := by
  refine tracks_get_bind (fun first second hstep => ?_) fun _ => ?_
  · rw [hstep.progress, hstep.body.image]
  · exact .bind_eq (tracks_verify _) fun _ => tracks_write fun _ => Writer.appends_writeEnd

section

variable (h : Lexer.Tracking step lost)
include h

theorem tracks_collect (alphabet : Segment.Alphabet) :
    GoesAlong step lost Eq (read (Block.read (Lexer.collect alphabet))) :=
  tracks_read (Block.tracks_read (h.collect alphabet))

theorem tracks_data : GoesAlong step lost Eq data :=
  .bind_eq tracks_startPixels fun _ => .bind_eq (tracks_collect h _) fun octets =>
    tracks_write fun _ => Writer.appends_writeChunk dataType (octetField octets)

theorem tracks_pixels : GoesAlong step lost Eq pixels := by
  refine tracks_get_bind (fun first second hstep => ?_) fun compilation => ?_
  · rw [hstep.body.image]
  · refine .bind_eq tracks_startPixels fun _ => .bind_eq (tracks_collect h _) fun octets => ?_
    exact .ite Iff.rfl (tracks_write fun _ => Writer.appends_writeImage _ _) (.throw _)

theorem tracks_body (keyword : Keyword) : GoesAlong step lost Eq (body keyword) := by
  unfold body
  split
  · exact tracks_read (tracks_header h)
  · exact tracks_read (tracks_palette h)
  · exact tracks_read (tracks_chromaticities h)
  · exact tracks_read (tracks_gamma h)
  · exact tracks_read (tracks_intent h)
  · exact tracks_data h
  · exact tracks_pixels h
  · exact .throw _

theorem tracks_openBody : Block.GoesAlong step lost openBody := by
  refine .bind_eq (Block.tracks_next h) fun found => ?_
  cases found with
  | none => exact tracks_fail _
  | some token => exact .ite Iff.rfl (.pure rfl) (tracks_failAt _ _)

theorem tracks_block (token : Token) : GoesAlong step lost Eq (block token) := by
  unfold block
  split
  · exact tracks_read (tracks_failAt _ _)
  · refine .bind_eq (tracks_read (tracks_openBody h)) fun _ => ?_
    refine tracks_get_bind (fun first second hstep => ?_) fun _ => ?_
    · rw [hstep.progress, hstep.body.image]
    · exact .bind_eq (tracks_verify _) fun _ => .bind_eq (tracks_body h _) fun _ =>
        tracks_add _

theorem tracks_next : GoesAlong step lost Eq next :=
  tracks_read (Block.tracks_next h)

/-- Compiling all blocks of a source goes along. -/
theorem tracks_blocks : GoesAlong step lost Eq blocks :=
  .foldEach (tracks_next h) (fun _ => tracks_block h) ()

end

/-! ## Runs -/

variable {tail : List Reading} {reason : String}

theorem lexer_next_of_next {compilation after : Compilation} {found : Option Token}
    (h : next compilation = .ok found after) :
    Lexer.next compilation.lexer = .ok found after.lexer := by
  simp only [next, read, Block.read] at h
  cases hresult : Lexer.next compilation.lexer <;> rw [hresult] at h <;> cases h
  rfl

/-- On a source that is cut off, reading fails before all blocks have been compiled. -/
theorem lockstep_blocks_cut (htail : 0 < tail.length) {whole cut : Compilation}
    (h : InStep (Cut tail reason) whole cut) :
    Lockstep (fun _ _ _ _ => False)
      (fun failure after failure' after' =>
        failure' = failure ∧ InStep (Cut tail reason) after after')
      (Lost (LostBehind tail reason)) (blocks whole) (blocks cut) := by
  have htracking : Lexer.Tracking (Cut tail reason) (LostBehind tail reason) := tracking_cut htail
  refine Lockstep.foldEach (fun _ whole _ cut => InStep (Cut tail reason) whole cut)
    (fun _ token whole _ token' cut => token = token' ∧ InStep (Cut tail reason) whole cut) h ?_ ?_
    (tracks_next htracking).stays fun _ token => (tracks_block htracking token).stays
  · intro _ whole _ cut hstep
    refine ((tracks_next htracking).lockstep whole cut hstep).known_right.mono_post ?_
    intro found after found' after' hfound
    obtain ⟨⟨rfl, hafter⟩, hnext⟩ := hfound
    cases found with
    | none => exact (hstep.body.lexer.next_ne_none (lexer_next_of_next hnext)).elim
    | some token => exact .inr ⟨token, token, rfl, rfl, rfl, hafter⟩
  · intro _ token whole _ token' cut hstep
    obtain ⟨rfl, hstep⟩ := hstep
    exact ((tracks_block htracking token).lockstep whole cut hstep).mono_post
      fun _ _ _ _ hafter => hafter.2

/-- What has been lost stays lost when the first compilation completes its image. -/
theorem outcome_conclude_of_lost {first second : Compilation} {failure : Failure}
    (h : Lost lost first failure second) :
    Outcome (fun _ after => Lost lost after failure second)
      (fun _ after => Lost lost after failure second) (conclude first) := by
  have htracks : GoesAlong (fun _ _ => False) lost Eq finish := tracks_finish
  have hfinish := htracks.stays failure second first h
  simp only [conclude]
  cases hresult : finish first <;> rw [hresult] at hfinish <;> exact hfinish.2

/-- A run on a source that is cut off fails: as the run on the whole source does, or because reading
fails behind the cut. -/
inductive CutShort (tail : List Reading) (reason : String) :
    EStateM.Result Failure Compilation Unit → EStateM.Result Failure Compilation Unit → Prop
  | failed {failure : Failure} {after after' : Compilation}
      (h : InStep (Cut tail reason) after after') :
      CutShort tail reason (.error failure after) (.error failure after')
  | lost {result : EStateM.Result Failure Compilation Unit} {failure : Failure}
      {after' : Compilation}
      (h : Outcome (fun _ after => Lost (LostBehind tail reason) after failure after')
        (fun _ after => Lost (LostBehind tail reason) after failure after') result) :
      CutShort tail reason result (.error (failure.withLine (.at after'.lexer.line)) after')

theorem cutShort_run (htail : 0 < tail.length) {whole cut : Compilation}
    (h : InStep (Cut tail reason) whole cut) : CutShort tail reason (run whole) (run cut) := by
  have hblocks := lockstep_blocks_cut htail h
  rw [run_eq, run_eq]
  cases hresult : blocks whole <;> cases hresult' : blocks cut <;>
    rw [hresult, hresult'] at hblocks
  case ok.ok => exact hblocks.elim
  case ok.error => exact .lost (outcome_conclude_of_lost hblocks)
  case error.ok => exact hblocks.elim
  case error.error failure after failure' after' =>
    obtain ⟨rfl, hstep⟩ | hlost := hblocks
    · dsimp only
      rw [(tracking_cut htail).line_eq _ _ hstep.body.lexer]
      exact .failed hstep
    · refine .lost ?_
      exact ⟨hlost.lexer, hlost.written⟩

theorem not_lost {first second : Compilation} {failure : Failure} :
    ¬ Lost (fun _ _ _ => False) first failure second := by
  rintro ⟨⟨_, _, h⟩, -⟩
  exact h

/-- A run does not tell whether the end of the source is marked. -/
theorem alike_run_marked {first second : Compilation} (h : InStep Marked first second) :
    Alike (fun _ after _ after' => after'.writer = after.writer)
      (fun failure after failure' after' => failure' = failure ∧ after'.writer = after.writer)
      (run first) (run second) := by
  have hblocks := (tracks_blocks tracking_marked).lockstep first second h
  rw [run_eq, run_eq]
  cases hresult : blocks first <;> cases hresult' : blocks second <;>
    rw [hresult, hresult'] at hblocks
  case ok.ok _ middle _ middle' =>
    have htracks : GoesAlong Marked (fun _ _ _ => False) Eq finish := tracks_finish
    have hfinish := htracks.lockstep middle middle' hblocks.2
    simp only [conclude]
    cases hlast : finish middle <;> cases hlast' : finish middle' <;> rw [hlast, hlast'] at hfinish
    case ok.ok => exact hfinish.2.writer
    case ok.error => exact not_lost hfinish
    case error.ok => exact hfinish.elim
    case error.error =>
      obtain ⟨rfl, hstep⟩ := hfinish.resolve_right not_lost
      exact .inl ⟨rfl, hstep.writer⟩
  case ok.error => exact (not_lost hblocks).elim
  case error.ok => exact hblocks.elim
  case error.error failure after failure' after' =>
    obtain ⟨rfl, hstep⟩ := hblocks.resolve_right not_lost
    dsimp only
    rw [tracking_marked.line_eq _ _ hstep.body.lexer]
    exact .inl ⟨rfl, hstep.writer⟩

end Compilation.Paired

/-- The source with a reading of its own for its end. -/
def Source.withEnd (source : Source) : Source :=
  { source with ahead := source.ahead ++ [none] }

/-- A source that fails after `n` characters is one of these characters. -/
theorem Source.failingAfter_ofChars {chars : List Char} {n : Nat} (hn : n ≤ chars.length)
    (reason : String) :
    (ofChars chars).failingAfter n reason =
      { ofChars (chars.take n) with fault := some reason } := by
  simp [failingAfter, ofChars, Nat.not_lt.2 hn, List.map_take]

namespace Compilation.Paired

variable {chars : List Char} {n : Nat} {reason : String}

theorem inStep_withEnd (chars : List Char) (sink : Sink) :
    InStep Marked (.ofSource (Source.ofChars chars).withEnd sink)
      (.ofSource (.ofChars chars) sink) := by
  refine ⟨⟨?_, rfl⟩, rfl, rfl⟩
  have hmarked := Marked.intro chars false 1 none [none] (.inr rfl)
  simpa [upTo, ofSource, Lexer.ofSource, Source.withEnd, Source.ofChars] using hmarked

theorem inStep_failingAfter (hn : n ≤ chars.length) (reason : String) (sink : Sink) :
    InStep (Cut ((chars.drop n).map some ++ [none]) reason)
      (.ofSource (Source.ofChars chars).withEnd sink)
      (.ofSource ((Source.ofChars chars).failingAfter n reason) sink) := by
  refine ⟨⟨?_, rfl⟩, rfl, rfl⟩
  have hcut := @Cut.intro ((chars.drop n).map some ++ [none]) reason (chars.take n) false 1 none
    (by simp)
  have hchars : (chars.take n).map some ++ ((chars.drop n).map some ++ [none]) =
      chars.map some ++ [none] := by
    rw [← List.append_assoc, ← List.map_append, List.take_append_drop]
  rw [upTo, hchars, upTo, List.append_nil] at hcut
  rw [Source.failingAfter_ofChars hn]
  exact hcut

/-- Reading that has failed after some characters is reported on the line that they lead to. -/
theorem line_of_readFailed {chars : List Char} {sink : Sink} {after : Compilation} {number : Nat}
    (h : run (.ofSource { Source.ofChars chars with fault := some reason } sink) =
      .error (.diagnostic ⟨.readFailed reason, some (.at number)⟩) after) :
    number = lineAfter chars := by
  have hsource : OnSource chars
      (Lexer.ofSource { Source.ofChars chars with fault := some reason }) :=
    ⟨[], chars, rfl, at_ofSource chars _⟩
  obtain ⟨line, hline, -, hplaced⟩ := exists_line hsource h
  cases hline
  simpa using (hplaced (by simp)).readFailed reason rfl

end Compilation.Paired

/-- A source that fails after `n` characters, compared to the source without the fault. The run
always fails, and what it writes is the beginning of what is written otherwise. If the run without
the fault asks for no more than `n` characters, both fail in the same way; else reading has failed,
on the line that the `n` characters lead to. How much is asked for can be seen in the run on the
source whose end is marked by a reading of its own, which comes to the same. -/
theorem compile_failingAfter [Quotes] (chars : List Char) (n : Nat) (hn : n ≤ chars.length)
    (reason : String) (sink : Sink) :
    let source := Source.ofChars chars
    let faulty := source.failingAfter n reason
    let asked := (compile source.withEnd sink).2.lexer.asked (chars.length + 1)
    (compile source.withEnd sink).1 = (compile source sink).1 ∧
    (compile source.withEnd sink).2.writer = (compile source sink).2.writer ∧
    (∃ failure, (compile faulty sink).1 = .error failure) ∧
    (compile faulty sink).2.writer.sink.written <+: (compile source sink).2.writer.sink.written ∧
    (asked ≤ n → (compile faulty sink).1 = (compile source sink).1) ∧
    (n < asked → ∃ diagnostic, (compile faulty sink).1 = .error (.diagnostic diagnostic) ∧
      diagnostic.cause.category = .lexical ∧ diagnostic.cause.message = "read error: " ++ reason ∧
      diagnostic.line = some (.at (1 + (chars.take n).count '\n'))) := by
  dsimp only
  have hmarked := Compilation.Paired.alike_run_marked (Compilation.Paired.inStep_withEnd chars sink)
  have hsame : (compile (Source.ofChars chars).withEnd sink).1 =
        (compile (Source.ofChars chars) sink).1 ∧
      (compile (Source.ofChars chars).withEnd sink).2.writer =
        (compile (Source.ofChars chars) sink).2.writer := by
    rw [Compilation.compile_eq, Compilation.compile_eq]
    generalize Compilation.run (.ofSource (Source.ofChars chars).withEnd sink) = result at hmarked ⊢
    generalize Compilation.run (.ofSource (Source.ofChars chars) sink) = result' at hmarked ⊢
    cases result <;> cases result'
    · exact ⟨rfl, hmarked.symm⟩
    · exact hmarked.elim
    · exact hmarked.elim
    · obtain ⟨rfl, hwriter⟩ := hmarked.resolve_right id
      exact ⟨rfl, hwriter.symm⟩
  refine ⟨hsame.1, hsame.2, ?_⟩
  rw [← hsame.1, ← hsame.2]
  have htail : ((chars.drop n).map some ++ [none] : List Reading).length =
      chars.length + 1 - n := by
    simp only [List.length_append, List.length_map, List.length_drop, List.length_singleton]
    omega
  have hcut := Compilation.Paired.cutShort_run (by omega)
    (Compilation.Paired.inStep_failingAfter hn reason sink)
  rw [← Nat.not_lt, lt_asked_iff (by omega), ← htail, Compilation.compile_eq,
    Compilation.compile_eq]
  generalize Compilation.run (.ofSource (Source.ofChars chars).withEnd sink) = result at hcut ⊢
  generalize hresult' : Compilation.run
    (.ofSource ((Source.ofChars chars).failingAfter n reason) sink) = result' at hcut ⊢
  cases hcut with
  | @failed failure after after' h =>
    refine ⟨⟨failure, rfl⟩, ?_, fun _ => rfl, fun hpassed => ?_⟩
    · simp [ended, h.writer]
    · exact (h.body.lexer.not_passed hpassed).elim
  | @lost _ failure after' h =>
    obtain ⟨⟨diagnostic, rfl, hpassed, rfl⟩, hwritten⟩ := h.ended
    refine ⟨⟨_, rfl⟩, hwritten, fun hnot => (hnot hpassed).elim, fun _ => ⟨_, rfl, rfl, rfl, ?_⟩⟩
    rw [Source.failingAfter_ofChars hn] at hresult'
    have hline := Compilation.Paired.line_of_readFailed hresult'
    exact congrArg (fun number => some (Line.at number)) hline

section

attribute [local instance] Quotes.plain

/-- The source of one black pixel is read beyond its third character. -/
theorem compile_failingAfter_dot :
    let chars := "IHDR\x7bwidth 1 height 1\x7dIMAGE\x7b00\x7d".toList
    ∃ diagnostic, (compile ((Source.ofChars chars).failingAfter 3 "device error") {}).1 =
        .error (.diagnostic diagnostic) ∧
      diagnostic.cause.category = .lexical ∧
      diagnostic.cause.message = "read error: " ++ "device error" ∧
      diagnostic.line = some (.at (1 + (chars.take 3).count '\n')) :=
  (compile_failingAfter _ 3 (by decide) "device error" {}).2.2.2.2.2 (by decide +kernel)

end

end ScriptedPng
