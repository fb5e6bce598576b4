import ScriptedPng.Proofs.Lockstep
import ScriptedPng.Proofs.Png.Plan
import ScriptedPng.Proofs.Step

/-!
# Sinks with faults

A sink may have room for some writes only, and flushing it may fail. A run to such a sink goes along
with the run to a sink without faults, write by write, up to the first write that fails; then it
breaks off. If all writes succeed, only flushing at the very end can make a difference.

## Main definitions

* `Sink.withFaults` — a sink with the writes of another one and faults of its own.
* `Writer.InStep`, `Writer.Lost` — the two writers in step, and after a write that has failed.

## Main statements

* `Writer.tracks_write`, `Writer.tracks_writeInfo`, … — the steps of writing go along.
* `Compilation.tracks_blocks` — compiling all blocks goes along.
* `compile_faulty` — what faults of the sink make of a run.
-/

namespace ScriptedPng

open Block Diagnostic Png

namespace Png

/-! ## Writers -/

/-- The sink with the same writes, but with room for so many writes in all, if a number is given,
and with a reason why flushing fails, if one is given. -/
def Sink.withFaults (room : Option (Nat × String)) (flushFault : Option String) (sink : Sink) :
    Sink where
  written := sink.written
  room := room.map fun (limit, reason) => (limit - sink.written.length, reason)
  flushFault

namespace Writer

/-- The writer to a sink with faults. -/
def withFaults (room : Option (Nat × String)) (flushFault : Option String) (writer : Writer) :
    Writer :=
  { writer with sink := writer.sink.withFaults room flushFault }

variable {room : Option (Nat × String)} {flushFault : Option String} {α : Type}

/-- The first writer has a sink without faults, and the second one differs from it by the faults
alone. There has been room for all writes. -/
structure InStep (room : Option (Nat × String)) (flushFault : Option String)
    (writer faulty : Writer) : Prop where
  room_eq : writer.sink.room = none
  flushFault_eq : writer.sink.flushFault = none
  faulty_eq : faulty = writer.withFaults room flushFault
  room_le : ∀ entry ∈ room, writer.sink.written.length ≤ entry.1

/-- The first writer has written more than there is room for. The second one has broken off after as
many writes as there is room for. -/
structure Lost (room : Option (Nat × String)) (writer : Writer) (failure : Failure)
    (faulty : Writer) : Prop where
  exists_room : ∃ entry, room = some entry ∧ entry.1 < writer.sink.written.length ∧
    faulty.sink.written = writer.sink.written.take entry.1 ∧
    failure = .ofCause (.writeFailed entry.2)

/-- An action of the writer goes along with itself on a sink with faults. -/
abbrev GoesAlong (room : Option (Nat × String)) (flushFault : Option String)
    (action : WriterM α) : Prop :=
  Tracks (InStep room flushFault) (Lost room) Eq action action

theorem Lost.append {writer after faulty : Writer} {failure : Failure} {more : List Octets}
    (h : Lost room writer failure faulty)
    (hafter : after.sink.written = writer.sink.written ++ more) :
    Lost room after failure faulty := by
  obtain ⟨entry, hroom, hless, hwritten, hfailure⟩ := h
  refine ⟨entry, hroom, ?_, ?_, hfailure⟩
  · rw [hafter, List.length_append]
    omega
  · rw [hafter, List.take_append_of_le_length (by omega), hwritten]

/-- A write goes along while there is room, and else it fails. -/
theorem tracks_write (octets : Octets) : GoesAlong room flushFault (write octets) where
  lockstep := by
    rintro writer faulty ⟨hroom, hflush, rfl, hle⟩
    have hwrite : writer.sink.write octets =
        .ok { writer.sink with written := writer.sink.written ++ [octets] } := by
      simp [Sink.write, hroom]
    simp only [write, hwrite]
    cases room with
    | none => exact ⟨trivial, hroom, hflush, rfl, by simp⟩
    | some entry =>
      obtain ⟨limit, reason⟩ := entry
      have hlimit : writer.sink.written.length ≤ limit := hle _ rfl
      cases hleft : limit - writer.sink.written.length with
      | zero =>
        have hfaulty : (writer.sink.withFaults (some (limit, reason)) flushFault).write octets =
            .error reason := by
          simp [Sink.withFaults, Sink.write, hleft]
        simp only [withFaults, hfaulty]
        refine ⟨(limit, reason), rfl, ?_, ?_, rfl⟩
        · simp only [List.length_append, List.length_singleton]
          omega
        · rw [List.take_append_of_le_length (by omega), List.take_of_length_le (by omega)]
          rfl
      | succ left =>
        have hnext : limit - (writer.sink.written.length + 1) = left := by omega
        have hfaulty : (writer.sink.withFaults (some (limit, reason)) flushFault).write octets =
            .ok (Sink.withFaults (some (limit, reason)) flushFault
              { writer.sink with written := writer.sink.written ++ [octets] }) := by
          simp [Sink.withFaults, Sink.write, hleft, hnext]
        simp only [withFaults, hfaulty]
        refine ⟨trivial, hroom, hflush, rfl, ?_⟩
        rintro _ ⟨⟩
        simp only [List.length_append, List.length_singleton]
        omega
  stays := by
    rintro failure faulty writer hlost
    refine (outcome_write octets writer).mono ?_ ?_
    · rintro _ after ⟨hafter, -, -⟩
      exact ⟨trivial, hlost.append hafter⟩
    · rintro _ after ⟨rfl, -⟩
      exact ⟨trivial, hlost⟩

theorem tracks_lift (result : Except Failure α) : GoesAlong room flushFault (lift result) := by
  cases result with
  | error failure => exact .throw failure
  | ok value => exact .pure rfl

/-- Recording the type of a chunk goes along. -/
theorem tracks_record (type : Octets) : GoesAlong room flushFault
    (modify fun writer => { writer with types := writer.types ++ [type] }) where
  lockstep := by
    rintro writer faulty ⟨hroom, hflush, rfl, hle⟩
    exact ⟨rfl, hroom, hflush, rfl, hle⟩
  stays _ _ _ hlost := ⟨trivial, hlost.append (List.append_nil _).symm⟩

theorem tracks_writeChunk (type : Octets) (data : Record.Field) :
    GoesAlong room flushFault (writeChunk type data) := by
  refine .bind_eq (tracks_lift _) fun chunk => ?_
  split
  · refine .bind_eq (tracks_lift _) fun _ => ?_
    split
    · exact .throw _
    · exact .throw _
    · exact .bind_eq (tracks_write _) fun _ => tracks_record type
  · exact .throw _

theorem tracks_fixedPoint (value : Double) : GoesAlong room flushFault (fixedPoint value) :=
  tracks_lift _

theorem tracks_writeInfo (image : Image) : GoesAlong room flushFault (writeInfo image) := by
  have hcoordinates : GoesAlong room flushFault
      (image.chromaticities.coordinates.mapM fixedPoint) := by
    rw [mapM_fixedPoint]
    exact tracks_lift _
  refine .bind_eq (tracks_lift _) fun type => .bind_eq (tracks_write _) fun _ => ?_
  refine .bind_eq (tracks_writeChunk _ _) fun _ => ?_
  refine .optional (fun hrest => .bind_eq (tracks_fixedPoint _) fun _ =>
    .bind_eq (tracks_writeChunk _ _) fun _ => hrest) ?_
  refine .optional (fun hrest => .bind_eq (tracks_writeChunk _ _) fun _ => hrest) ?_
  refine .optional (fun hrest => .bind_eq hcoordinates fun _ =>
    .bind_eq (tracks_writeChunk _ _) fun _ => hrest) ?_
  exact .ite Iff.rfl (tracks_writeChunk _ _) (.pure rfl)

theorem tracks_writeImage (image : Image) (data : Octets) :
    GoesAlong room flushFault (writeImage image data) :=
  .bind_eq (tracks_lift _) fun _ => .forM (fun _ => tracks_writeChunk _ _) _

/-- Completes the writes. -/
def flush : WriterM Unit := do
  match (← get).sink.flush with
  | .ok () => return
  | .error reason => fail (.writeFailed reason)

theorem writeEnd_eq_flush : writeEnd = (do writeChunk endType (octetField []); flush) := rfl

/-- Flushing leaves the writer as it is. -/
theorem flush_run (writer : Writer) : flush writer =
    match writer.sink.flush with
    | .ok _ => .ok () writer
    | .error reason => .error (.ofCause (.writeFailed reason)) writer := by
  change (match writer.sink.flush with
    | .ok () => (pure () : WriterM Unit)
    | .error reason => fail (.writeFailed reason)) writer = _
  cases writer.sink.flush <;> rfl

/-- Flushing writes nothing, and makes the difference if all has been written. -/
theorem flush_of_inStep {writer faulty : Writer} (h : InStep room flushFault writer faulty) :
    flush writer = .ok () writer ∧
      flush faulty = match flushFault with
        | none => .ok () faulty
        | some reason => .error (.ofCause (.writeFailed reason)) faulty := by
  obtain ⟨-, hflush, rfl, -⟩ := h
  rw [flush_run, flush_run]
  refine ⟨by simp [Sink.flush, hflush], ?_⟩
  cases flushFault with
  | none => rfl
  | some reason => rfl

theorem flush_eq (writer : Writer) : flush writer = .ok () writer ∨
    ∃ failure, flush writer = .error failure writer := by
  rw [flush_run]
  cases writer.sink.flush with
  | ok _ => exact .inl rfl
  | error reason => exact .inr ⟨_, rfl⟩

end Writer

end Png

namespace Compilation

/-! ## Compilations -/

variable {room : Option (Nat × String)} {flushFault : Option String} {α : Type}

/-- The two compilations differ by the faults of the sink alone, and there has been room for all
writes. -/
structure InStep (room : Option (Nat × String)) (flushFault : Option String)
    (compilation faulty : Compilation) : Prop where
  writer : Writer.InStep room flushFault compilation.writer faulty.writer
  eq : faulty = { compilation with writer := faulty.writer }

theorem InStep.line_eq {compilation faulty : Compilation}
    (h : InStep room flushFault compilation faulty) :
    faulty.lexer.line = compilation.lexer.line := by
  rw [h.eq]

theorem InStep.image_eq {compilation faulty : Compilation}
    (h : InStep room flushFault compilation faulty) : faulty.image = compilation.image := by
  rw [h.eq]

theorem InStep.written_eq {compilation faulty : Compilation}
    (h : InStep room flushFault compilation faulty) :
    faulty.writer.sink.written = compilation.writer.sink.written := by
  rw [h.writer.faulty_eq]
  rfl

theorem InStep.not_lt {compilation faulty : Compilation} {limit : Nat} {reason : String}
    (h : InStep room flushFault compilation faulty) (hroom : room = some (limit, reason)) :
    ¬ limit < compilation.writer.sink.written.length :=
  Nat.not_lt.2 (h.writer.room_le _ hroom)

/-- An action goes along with itself on a sink with faults. The values are related as given. -/
abbrev GoesAlong (room : Option (Nat × String)) (flushFault : Option String)
    (related : α → α → Prop) (action : CompileM α) : Prop :=
  Tracks (InStep room flushFault)
    (fun compilation failure faulty => Writer.Lost room compilation.writer failure faulty.writer)
    related action action

theorem tracks_read (action : BodyM α) : GoesAlong room flushFault Eq (read action) where
  lockstep := by
    rintro compilation ⟨_, _, faulty⟩ ⟨hwriter, ⟨⟩⟩
    simp only [read]
    cases action compilation.toBody with
    | ok value body => exact ⟨rfl, hwriter, rfl⟩
    | error diagnostic body => exact .inl ⟨rfl, hwriter, rfl⟩
  stays := by
    rintro failure faulty compilation hlost
    simp only [read]
    cases action compilation.toBody with
    | ok value body => exact ⟨trivial, hlost⟩
    | error diagnostic body => exact ⟨trivial, hlost⟩

theorem tracks_write {action : WriterM α} (h : Writer.GoesAlong room flushFault action) :
    GoesAlong room flushFault Eq (write action) where
  lockstep := by
    rintro compilation ⟨_, _, faulty⟩ ⟨hwriter, ⟨⟩⟩
    have haction := h.lockstep _ _ hwriter
    simp only [write]
    cases hresult : action compilation.writer <;> cases hresult' : action faulty <;>
      rw [hresult, hresult'] at haction
    · exact ⟨haction.1, haction.2, rfl⟩
    · exact haction
    · exact haction.elim
    · exact haction.imp (fun hfault => ⟨hfault.1, hfault.2, rfl⟩) id
  stays := by
    rintro failure faulty compilation hlost
    have haction := h.stays failure faulty.writer compilation.writer hlost
    simp only [write]
    cases hresult : action compilation.writer <;> rw [hresult] at haction <;> exact haction

theorem tracks_get : GoesAlong room flushFault (InStep room flushFault)
    (get : CompileM Compilation) where
  lockstep _ _ hstep := ⟨hstep, hstep⟩
  stays _ _ _ hlost := ⟨trivial, hlost⟩

/-- What comes after the state has been looked at may depend on all of it but the writer. -/
theorem tracks_get_bind {β : Type} {next : Compilation → CompileM β}
    (h : ∀ compilation writer, Tracks (InStep room flushFault)
      (fun compilation failure faulty => Writer.Lost room compilation.writer failure faulty.writer)
      Eq (next compilation) (next { compilation with writer })) :
    GoesAlong room flushFault Eq (do next (← get)) := by
  refine .bind tracks_get ?_ fun compilation => (h compilation compilation.writer).stays
  rintro compilation ⟨_, _, faulty⟩ ⟨-, ⟨⟩⟩
  exact h compilation faulty

theorem tracks_verify (result : Except Cause Unit) :
    GoesAlong room flushFault Eq (verify result) := by
  cases result with
  | error cause => exact .throw _
  | ok _ => exact .pure rfl

theorem tracks_startPixels : GoesAlong room flushFault Eq startPixels :=
  tracks_get_bind fun _ _ => .ite Iff.rfl (.pure rfl) (tracks_write (Writer.tracks_writeInfo _))

theorem tracks_data : GoesAlong room flushFault Eq data :=
  .bind_eq tracks_startPixels fun _ => .bind_eq (tracks_read _) fun _ =>
    tracks_write (Writer.tracks_writeChunk _ _)

theorem tracks_pixels : GoesAlong room flushFault Eq pixels :=
  tracks_get_bind fun _ _ => .bind_eq tracks_startPixels fun _ => .bind_eq (tracks_read _) fun _ =>
    .ite Iff.rfl (tracks_write (Writer.tracks_writeImage _ _)) (.throw _)

theorem tracks_body (keyword : Keyword) : GoesAlong room flushFault Eq (body keyword) := by
  unfold body
  split
  · exact tracks_read _
  · exact tracks_read _
  · exact tracks_read _
  · exact tracks_read _
  · exact tracks_read _
  · exact tracks_data
  · exact tracks_pixels
  · exact .throw _

/-- Counting a block goes along. -/
theorem tracks_add (keyword : Keyword) : GoesAlong room flushFault Eq (modify fun compilation =>
    { compilation with progress := compilation.progress.add keyword }) where
  lockstep := by
    rintro compilation ⟨_, _, faulty⟩ ⟨hwriter, ⟨⟩⟩
    exact ⟨rfl, hwriter, rfl⟩
  stays _ _ _ hlost := ⟨trivial, hlost⟩

theorem tracks_block (token : Token) : GoesAlong room flushFault Eq (block token) := by
  unfold block
  split
  · exact tracks_read _
  · refine .bind_eq (tracks_read _) fun _ => tracks_get_bind fun _ _ => ?_
    exact .bind_eq (tracks_verify _) fun _ => .bind_eq (tracks_body _) fun _ => tracks_add _

/-- Compiling all blocks of a source goes along. -/
theorem tracks_blocks : GoesAlong room flushFault Eq blocks :=
  .foldEach (tracks_read _) (fun _ => tracks_block) ()

/-! ## Runs -/

/-- How a run to a sink with faults compares to one without: it has failed for the same reason; it
has succeeded as well; only flushing has failed, at the very end; or a write has failed on the way,
whatever has become of the run without faults. -/
inductive Compared (room : Option (Nat × String)) (flushFault : Option String) :
    EStateM.Result Failure Compilation Unit → EStateM.Result Failure Compilation Unit → Prop
  | failed {failure : Failure} {after after' : Compilation}
      (h : InStep room flushFault after after') :
      Compared room flushFault (.error failure after) (.error failure after')
  | done {after after' : Compilation} (hflush : flushFault = none)
      (h : InStep room flushFault after after') :
      Compared room flushFault (.ok () after) (.ok () after')
  | unflushed {reason : String} {after after' : Compilation} (hflush : flushFault = some reason)
      (h : InStep room flushFault after after') :
      Compared room flushFault (.ok () after)
        (.error (.diagnostic ⟨.writeFailed reason, some .ending⟩) after')
  | lost {result : EStateM.Result Failure Compilation Unit} {failure : Failure} {line : Line}
      {after' : Compilation}
      (h : Outcome (fun _ after => Writer.Lost room after.writer failure after'.writer)
        (fun _ after => Writer.Lost room after.writer failure after'.writer) result) :
      Compared room flushFault result (.error (failure.withLine line) after')

/-- What comes before flushing at the end of the source. -/
def writeLast : CompileM Unit := do
  let compilation ← get
  verify (compilation.progress.checkEnd compilation.image.color)
  write (Writer.writeChunk endType (octetField []))

theorem write_bind {β : Type} (action : WriterM α) (next : α → WriterM β) :
    write (action >>= next) = (do write (next (← write action))) := by
  funext compilation
  simp only [write, Bind.bind, EStateM.bind]
  cases action compilation.writer <;> rfl

theorem finish_eq_flush : finish = (do writeLast; write Writer.flush) := by
  simp only [finish, writeLast, Writer.writeEnd_eq_flush, write_bind, bind_assoc]

theorem tracks_writeLast : GoesAlong room flushFault Eq writeLast :=
  tracks_get_bind fun _ _ => .bind_eq (tracks_verify _) fun _ =>
    tracks_write (Writer.tracks_writeChunk _ _)

/-- What has been lost stays lost at the end of the source. -/
theorem outcome_finish_of_lost {compilation : Compilation} {failure : Failure} {faulty : Writer}
    (h : Writer.Lost room compilation.writer failure faulty) :
    Outcome (fun _ after => Writer.Lost room after.writer failure faulty)
      (fun _ after => Writer.Lost room after.writer failure faulty) (finish compilation) := by
  have hlast : GoesAlong room none Eq writeLast := tracks_writeLast
  rw [finish_eq_flush]
  refine .bind ((hlast.stays failure { compilation with writer := faulty } compilation h).mono
    (fun _ _ h => h.2) fun _ _ h => h.2) ?_
  intro _ after hafter
  simp only [write]
  rcases Writer.flush_eq after.writer with h | ⟨failure, h⟩
  · rw [h]
    exact hafter
  · rw [h]
    exact hafter

theorem outcome_conclude_of_lost {compilation : Compilation} {failure : Failure} {faulty : Writer}
    (h : Writer.Lost room compilation.writer failure faulty) :
    Outcome (fun _ after => Writer.Lost room after.writer failure faulty)
      (fun _ after => Writer.Lost room after.writer failure faulty) (conclude compilation) := by
  have hfinish := outcome_finish_of_lost h
  simp only [conclude]
  cases hresult : finish compilation <;> rw [hresult] at hfinish <;> exact hfinish

theorem compared_conclude {compilation faulty : Compilation}
    (h : InStep room flushFault compilation faulty) :
    Compared room flushFault (conclude compilation) (conclude faulty) := by
  have hlast := tracks_writeLast.lockstep _ _ h
  simp only [conclude, finish_eq_flush, Bind.bind, EStateM.bind]
  cases hresult : writeLast compilation <;> cases hresult' : writeLast faulty <;>
    rw [hresult, hresult'] at hlast
  case ok.ok after after' =>
    obtain ⟨-, hstep⟩ := hlast
    obtain ⟨hflush, hflush'⟩ := Writer.flush_of_inStep hstep.writer
    simp only [write, hflush, hflush']
    cases flushFault with
    | none => exact .done rfl hstep
    | some reason => exact .unflushed rfl hstep
  case ok.error after failure' after' =>
    refine .lost ?_
    simp only [write]
    rcases Writer.flush_eq after.writer with h | ⟨failure, h⟩ <;> rw [h] <;> exact hlast
  case error.ok => exact hlast.elim
  case error.error failure after failure' after' =>
    obtain ⟨rfl, hstep⟩ | hlost := hlast
    · exact .failed hstep
    · exact .lost hlost

theorem compared_run {compilation faulty : Compilation}
    (h : InStep room flushFault compilation faulty) :
    Compared room flushFault (run compilation) (run faulty) := by
  have hblocks := tracks_blocks.lockstep _ _ h
  rw [run_eq, run_eq]
  cases hresult : blocks compilation <;> cases hresult' : blocks faulty <;>
    rw [hresult, hresult'] at hblocks
  case ok.ok => exact compared_conclude hblocks.2
  case ok.error => exact .lost (outcome_conclude_of_lost hblocks)
  case error.ok => exact hblocks.elim
  case error.error failure after failure' after' =>
    obtain ⟨rfl, hstep⟩ | hlost := hblocks
    · dsimp only
      rw [hstep.line_eq]
      exact .failed hstep
    · exact .lost hlost

theorem inStep_ofSource (source : Source) (room : Option (Nat × String))
    (flushFault : Option String) :
    InStep room flushFault (ofSource source {}) (ofSource source { room, flushFault }) where
  writer := by
    refine ⟨rfl, rfl, ?_, fun _ _ => Nat.zero_le _⟩
    cases room <;> rfl
  eq := rfl

end Compilation

/-- The result of a run in which writing has failed, for the given reason and on the given line. -/
def writeError (reason : String) (line : Line) : Except Failure Unit :=
  .error (.diagnostic ⟨.writeFailed reason, some line⟩)

theorem ofResult_writeError [Quotes] (name reason : String) (line : Line) :
    Report.ofResult name (writeError reason line) = .ok {
      status := .badImage
      text := name ++ ":" ++ line.text ++ ": " ++ ("write error: " ++ reason) ++ "\n" } := rfl

/-- A sink with faults compared to one without. If there is room for all writes, then everything is
the same, except that a run that succeeds otherwise fails at the end if flushing fails. If there is
not, then there are as many writes as there is room for, and the run fails with the write after
them, and is reported as an image that cannot be written. -/
theorem compile_faulty [Quotes] (source : Source) (name : String) (room : Option (Nat × String))
    (flushFault : Option String) :
    ((∀ limit reason, room = some (limit, reason) →
        (compile source {}).2.writer.sink.written.length ≤ limit) →
      (compile source { room, flushFault }).2.writer.sink.written =
        (compile source {}).2.writer.sink.written ∧
      (compile source { room, flushFault }).2.image = (compile source {}).2.image ∧
      (compile source { room, flushFault }).1 =
        match (compile source {}).1, flushFault with
        | .ok (), some reason => writeError reason .ending
        | result, _ => result) ∧
    ∀ limit reason, room = some (limit, reason) →
      limit < (compile source {}).2.writer.sink.written.length →
      (compile source { room, flushFault }).2.writer.sink.written =
        (compile source {}).2.writer.sink.written.take limit ∧
      ∃ line report, (compile source { room, flushFault }).1 = writeError reason line ∧
        Report.ofResult name (writeError reason line) = .ok report ∧ report.status.code = 2 ∧
        report.text = name ++ ":" ++ line.text ++ ": " ++ ("write error: " ++ reason) ++ "\n" := by
  have hrun := Compilation.compared_run (Compilation.inStep_ofSource source room flushFault)
  rw [Compilation.compile_eq, Compilation.compile_eq]
  generalize Compilation.run (.ofSource source {}) = result at hrun ⊢
  generalize Compilation.run (.ofSource source { room, flushFault }) = result' at hrun ⊢
  cases hrun with
  | failed h =>
    exact ⟨fun _ => ⟨h.written_eq, h.image_eq, rfl⟩, fun _ _ hroom hless =>
      (h.not_lt hroom hless).elim⟩
  | done hflush h =>
    subst hflush
    exact ⟨fun _ => ⟨h.written_eq, h.image_eq, rfl⟩, fun _ _ hroom hless =>
      (h.not_lt hroom hless).elim⟩
  | unflushed hflush h =>
    subst hflush
    exact ⟨fun _ => ⟨h.written_eq, h.image_eq, rfl⟩, fun _ _ hroom hless =>
      (h.not_lt hroom hless).elim⟩
  | lost h =>
    obtain ⟨⟨limit, reason⟩, hroom, hless, hwritten, rfl⟩ := h.ended
    refine ⟨fun hfits => absurd (hfits _ _ hroom) (Nat.not_le.2 hless), ?_⟩
    rintro limit' reason' hroom' -
    obtain ⟨rfl, rfl⟩ : limit = limit' ∧ reason = reason' := by
      simpa using hroom.symm.trans hroom'
    exact ⟨hwritten, _, _, rfl, ofResult_writeError name reason _, rfl, rfl⟩

/-- A source of one black pixel. -/
def dotSource : Source :=
  .ofChars "IHDR\x7bwidth 1 height 1\x7dIMAGE\x7b00\x7d".toList

section

attribute [local instance] Quotes.plain

/-- One black pixel takes more than two writes, so that a sink with room for two of them makes a
difference. -/
theorem compile_faulty_dot :
    (compile dotSource { room := some (2, "disk full") }).2.writer.sink.written =
        (compile dotSource {}).2.writer.sink.written.take 2 ∧
      ∃ line report, (compile dotSource { room := some (2, "disk full") }).1 =
          writeError "disk full" line ∧
        Report.ofResult "dot.sng" (writeError "disk full" line) = .ok report ∧
        report.status.code = 2 ∧ report.text =
          "dot.sng" ++ ":" ++ line.text ++ ": " ++ ("write error: " ++ "disk full") ++ "\n" :=
  (compile_faulty dotSource "dot.sng" (some (2, "disk full")) none).2 2 "disk full" rfl
    (by decide +kernel)

end

end ScriptedPng
