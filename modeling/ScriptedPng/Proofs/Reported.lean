import ScriptedPng.Proofs.Png.Overflow
import ScriptedPng.Proofs.Written

/-!
# What is reported

A run is reported as a success without a text, or as a failure with one line of text, whose status
tells whether writing has failed. A number that overflows in writing is the only failure that is not
reported.

## Main definitions

* `Report.IsLine` — a text is one line with the name of the source, a line of it, and a message.
* `Report.Reports` — a report on the result of a run is the right one.

## Main statements

* `compile_reports_iff` — a run is reported unless a number overflows.
-/

namespace ScriptedPng

open Diagnostic Png Text Writer

namespace Report

/-- The text is one line with the name of the source, a line of it, and a message. The newline at
the end is the only one, apart from those of the name. -/
def IsLine (name text : String) : Prop :=
  ∃ line message, OneLine line ∧ OneLine message ∧ text = name ++ ":" ++ line ++ ": " ++ message ++
    "\n"

theorem oneLine_iff {text : String} : OneLine text ↔ text.toList.count '\n' = 0 :=
  List.count_eq_zero.symm

/-- A line has one newline besides those of the name. -/
theorem IsLine.count_eq {name text : String} (h : IsLine name text) :
    text.toList.count '\n' = name.toList.count '\n' + 1 := by
  obtain ⟨line, message, hline, hmessage, rfl⟩ := h
  rw [oneLine_iff] at hline hmessage
  simp [hline, hmessage]

/-- The report on a result is the right one: success comes without a text; a failure comes with one
line, and has the status of an image that cannot be written just if writing has failed, with a
diagnostic about the image. -/
def Reports (sink : Sink) (name : String) (report : Report) :
    Except Failure Unit → Compilation → Prop
  | .ok (), _ => report.status = .success ∧ report.text = ""
  | .error failure, after => report.status ≠ .success ∧ IsLine name report.text ∧
      (OneLine name → report.text.toList.count '\n' = 1) ∧
      (report.status = .badImage ↔ ∃ original line, failure = Failure.withLine line original ∧
        Compilation.WriteFault sink original after) ∧
      (report.status = .badImage ↔ ∃ diagnostic, failure = .diagnostic diagnostic ∧
        diagnostic.isBackend = true)

end Report

/-! ## Lines -/

namespace Diagnostic

/-- The cause of the diagnostic is that the system has failed to read or write, for a reason. -/
def Cites (diagnostic : Diagnostic) (reason : String) : Prop :=
  diagnostic.cause = .readFailed reason ∨ diagnostic.cause = .writeFailed reason

/-- Besides the reasons of the system, the texts that the message takes over are on one line. -/
def IsPlain (diagnostic : Diagnostic) : Prop :=
  ∀ text ∈ diagnostic.cause.texts, OneLine text ∨ diagnostic.Cites text

theorem oneLine_line (line : Line) : OneLine line.text := by
  cases line with
  | «at» number => exact oneLine_natRepr number
  | ending => decide

theorem oneLine_message_iff [Quotes] {diagnostic : Diagnostic} (h : diagnostic.IsPlain) :
    OneLine diagnostic.cause.message ↔ ∀ reason, diagnostic.Cites reason → OneLine reason := by
  constructor
  · rintro hmessage reason (hcause | hcause) <;> rw [hcause] at hmessage <;>
      unfold Cause.message at hmessage <;> simp only [oneLine_append, oneLine_toString] at hmessage
    · exact hmessage.2
    · exact hmessage.2
  · exact fun hreasons => Cause.oneLine_message fun text hmem =>
      (h text hmem).elim id (hreasons text)

/-- A diagnostic with a line makes one line, unless the system gives a reason that is longer. -/
theorem isLine_iff [Quotes] {diagnostic : Diagnostic} (h : diagnostic.IsPlain) (line : Line)
    (name : String) :
    Report.IsLine name (Report.ofDiagnostic name (diagnostic.withLine line)).text ↔
      ∀ reason, diagnostic.Cites reason → OneLine reason := by
  have htext : (Report.ofDiagnostic name (diagnostic.withLine line)).text =
      name ++ ":" ++ (diagnostic.line.getD line).text ++ ": " ++ diagnostic.cause.message ++ "\n" :=
    rfl
  rw [← oneLine_message_iff h, htext]
  constructor
  · intro hisLine
    have hcount := hisLine.count_eq
    rw [Report.oneLine_iff]
    simp only [String.toList_append, List.count_append] at hcount
    have hnewline : "\n".toList.count '\n' = 1 := rfl
    omega
  · exact fun hmessage => ⟨_, _, oneLine_line _, hmessage, rfl⟩

end Diagnostic

/-! ## Where numbers overflow -/

namespace Png

variable {sink : Sink} {image : Image} {header : Header} {data : List Chunk} {writer : Writer}
  {types : List Octets}

/-- A number that overflows comes before the last of the chunks before the pixel data. -/
theorem Overflows.length_lt (h : Overflows image types) :
    types.length < (infoTypes image.given).length := by
  rcases h with ⟨rfl, hgiven, -⟩ | ⟨rfl, hgiven, -⟩
  · simp [infoTypes, hgiven]
  · simp [infoTypes, hgiven]

/-- Nothing overflows once the pixel data comes. -/
theorem not_overflows_of_begun (h : Begun sink image header data writer)
    (hbegins : ((infoPlan image header.type).chunks ++ data).map Chunk.type <+: types) :
    ¬ Overflows image types := by
  intro hoverflows
  have hlength := hbegins.length_le
  rw [types_of_begun h, List.length_append] at hlength
  have := hoverflows.length_lt
  omega

theorem not_overflows_of_idle (h : Idle sink image writer) : ¬ Overflows image writer.types := by
  rcases h with rfl | ⟨header, data, hbegun⟩
  · simp [Overflows, Writer.ofSink]
  · rw [hbegun.wrote.types]
    exact not_overflows_of_begun hbegun List.prefix_rfl

theorem OfWriting.isPlain {diagnostic : Diagnostic} (h : OfWriting diagnostic) :
    diagnostic.IsPlain := fun text hmem => .inl (h.texts text hmem)

/-- A failure for a reason of the system. -/
theorem isPlain_writeFailed (reason : String) : IsPlain ⟨.writeFailed reason, none⟩ :=
  fun text hmem => .inr (.inr (by rw [List.mem_singleton.1 hmem]))

/-- Writing breaks off at a number that overflows, or with a diagnostic about the image. -/
theorem of_broken {failure : Failure} (h : Broken sink image failure writer) :
    (∃ fault, failure = .number fault) ∧ Overflows image writer.types ∨
      (∃ diagnostic, failure = .diagnostic diagnostic ∧ diagnostic.isBackend = true ∧
        diagnostic.IsPlain) ∧ ¬ Overflows image writer.types := by
  cases h with
  | unfit h hidle => exact .inr ⟨⟨_, rfl, h.isBackend_eq, h.isPlain⟩, not_overflows_of_idle hidle⟩
  | refused _ hidle =>
    exact .inr ⟨⟨_, rfl, rfl, isPlain_writeFailed _⟩, not_overflows_of_idle hidle⟩
  | @info reason _ header done chunk _ hof hdone hwrote =>
    refine .inr ⟨⟨_, rfl, rfl, isPlain_writeFailed _⟩, fun hoverflows => ?_⟩
    -- The plan would stop before the chunk that has been refused.
    rw [hwrote.types] at hoverflows
    have hlength := hdone.length_le
    have hstops := hoverflows.stopsAt (((List.prefix_append _ _).trans hdone).map Chunk.type)
    have := congrArg List.length hstops.2
    simp [Plan.types] at this hlength
    omega
  | plan hof hresult hwrote =>
    rcases failsWriting_infoPlan _ _ _ hresult with ⟨fault, rfl⟩ | ⟨diagnostic, rfl, hdiagnostic⟩
    · exact .inl ⟨⟨fault, rfl⟩, infoPlan_stopsAt ⟨⟨fault, hresult⟩, hwrote.types.symm⟩⟩
    · refine .inr ⟨⟨diagnostic, rfl, hdiagnostic.isBackend_eq, hdiagnostic.isPlain⟩, ?_⟩
      intro hoverflows
      rw [hwrote.types] at hoverflows
      obtain ⟨⟨fault, hstops⟩, -⟩ := hoverflows.stopsAt List.prefix_rfl
      rw [hresult] at hstops
      cases hstops

end Png

/-! ## Reports on runs -/

namespace Compilation

variable {sink : Sink} {failure : Failure} {compilation : Compilation}

/-- A failure of writing is a number that overflows, or a diagnostic about the image. -/
theorem of_writeFault (h : WriteFault sink failure compilation) :
    (∃ fault, failure = .number fault) ∧ Overflows compilation.image compilation.writer.types ∨
      (∃ diagnostic, failure = .diagnostic diagnostic ∧ diagnostic.isBackend = true ∧
        diagnostic.IsPlain) ∧ ¬ Overflows compilation.image compilation.writer.types := by
  cases h with
  | broken h => exact of_broken h
  | last _ _ _ hbegun hadds =>
    refine .inr ⟨⟨_, rfl, rfl, isPlain_writeFailed _⟩, not_overflows_of_begun hbegun ?_⟩
    rw [hadds.types, hbegun.wrote.types]
    exact List.prefix_append _ _

/-- A run breaks off at a number that overflows, or with a diagnostic, which is about the image just
if writing has failed. -/
theorem of_fate {fault : Option String} (h : Fate sink fault failure compilation) :
    (∃ fault, failure = .number fault) ∧ Overflows compilation.image compilation.writer.types ∨
      (∃ diagnostic, failure = .diagnostic diagnostic ∧ diagnostic.IsPlain ∧
        (diagnostic.isBackend = true ↔ WriteFault sink failure compilation)) ∧
        ¬ Overflows compilation.image compilation.writer.types := by
  cases h with
  | @read diagnostic _ h hidle =>
    refine .inr ⟨⟨diagnostic, rfl, fun text hmem => ?_, fun hbackend => ?_, fun hwrite => ?_⟩,
      not_overflows_of_idle hidle⟩
    · exact (h.texts text hmem).imp id fun hreason => .inl hreason.1
    · simp [h.isBackend_eq] at hbackend
    · rcases of_writeFault hwrite with ⟨⟨_, hnumber⟩, -⟩ | ⟨⟨_, hdiagnostic, hbackend, -⟩, -⟩
      · cases hnumber
      · cases hdiagnostic
        exact hbackend
  | write h =>
    rcases of_writeFault h with hnumber | ⟨⟨diagnostic, rfl, hbackend, hplain⟩, hoverflows⟩
    · exact .inl hnumber
    · exact .inr ⟨⟨diagnostic, rfl, hplain, by simp [hbackend, h]⟩, hoverflows⟩

theorem not_overflows_of_complete (h : Complete sink compilation) :
    ¬ Overflows compilation.image compilation.writer.types := by
  obtain ⟨-, -, header, data, before, -, hbegun, hadds⟩ := h
  refine not_overflows_of_begun hbegun ?_
  rw [hadds.types, hbegun.wrote.types]
  exact List.prefix_append _ _

end Compilation

/-- The reason of the system, if that is what a result tells. -/
def reason? : Except Failure Unit → Option String
  | .error (.diagnostic ⟨.readFailed reason, _⟩) => some reason
  | .error (.diagnostic ⟨.writeFailed reason, _⟩) => some reason
  | _ => none

theorem cites_iff {diagnostic : Diagnostic} {line : Line} {reason : String} :
    diagnostic.Cites reason ↔ reason? (.error (.diagnostic (diagnostic.withLine line))) =
      some reason := by
  obtain ⟨cause, line⟩ := diagnostic
  cases cause <;> simp [Cites, reason?, Diagnostic.withLine]

namespace Report

variable {diagnostic : Diagnostic} {name : String} [Quotes]

theorem status_ofDiagnostic (name : String) (diagnostic : Diagnostic) :
    (ofDiagnostic name diagnostic).status ≠ .success ∧
      ((ofDiagnostic name diagnostic).status = .badImage ↔ diagnostic.isBackend = true) := by
  simp only [ofDiagnostic]
  cases diagnostic.isBackend <;> simp

/-- A run that breaks off with a diagnostic is reported in the right way if the text is one line. -/
theorem reports_ofDiagnostic {sink : Sink} {after : Compilation} {line : Line}
    (hline : IsLine name (ofDiagnostic name (diagnostic.withLine line)).text)
    (hbackend : diagnostic.isBackend = true ↔
      Compilation.WriteFault sink (.diagnostic diagnostic) after) :
    (ofDiagnostic name (diagnostic.withLine line)).Reports sink name
      (.error (.diagnostic (diagnostic.withLine line))) after := by
  obtain ⟨hstatus, hbad⟩ := status_ofDiagnostic name (diagnostic.withLine line)
  refine ⟨hstatus, hline, fun hname => ?_, hbad.trans ⟨fun h => ?_, ?_⟩, hbad.trans ?_⟩
  · rw [hline.count_eq, oneLine_iff.1 hname]
  · exact ⟨.diagnostic diagnostic, line, rfl, hbackend.1 h⟩
  · rintro ⟨original, line', heq, hwrite⟩
    rcases Compilation.of_writeFault hwrite with ⟨⟨fault, rfl⟩, -⟩ | ⟨⟨found, rfl, hfound, -⟩, -⟩
    · cases heq
    · injection heq with heq
      have hcause := congrArg Diagnostic.cause heq
      simp only [Diagnostic.withLine] at hcause
      simpa [isBackend, Diagnostic.withLine, hcause] using hfound
  · simp

end Report

/-- A run is reported in the right way, unless a number overflows when it is written. The system may
give a reason that does not fit one line. -/
theorem compile_reports_iff [Quotes] (source : Source) (sink : Sink) (name : String) :
    (∃ report, Report.ofResult name (compile source sink).1 = .ok report ∧
        report.Reports sink name (compile source sink).1 (compile source sink).2) ↔
      ¬ Overflows (compile source sink).2.image (compile source sink).2.writer.types ∧
        ∀ reason, reason? (compile source sink).1 = some reason → OneLine reason := by
  have hrun := Compilation.outcome_run_complete source sink
  unfold compile
  cases hresult : Compilation.run (.ofSource source sink) with
  | ok _ after =>
    rw [hresult] at hrun
    have hnot := Compilation.not_overflows_of_complete hrun
    simp [Report.ofResult, Report.Reports, reason?, hnot]
  | error failure after =>
    rw [hresult] at hrun
    obtain ⟨original, line, rfl, hfate⟩ := hrun
    rcases Compilation.of_fate hfate with ⟨⟨fault, rfl⟩, hoverflows⟩ |
      ⟨⟨diagnostic, rfl, hplain, hbackend⟩, hnot⟩
    · simp [Failure.withLine, Report.ofResult, hoverflows]
    · have hline := isLine_iff hplain line name
      simp only [Failure.withLine, Report.ofResult, Except.ok.injEq, exists_eq_left', hnot,
        not_false_eq_true, true_and, ← cites_iff, ← hline]
      exact ⟨fun h => h.2.1, fun h => Report.reports_ofDiagnostic h hbackend⟩

/-- A source whose gamma is finite, but overflows when it is scaled. -/
def overflowingSource : Source :=
  .ofChars "IHDR\x7bwidth 1 height 1\x7dgAMA\x7b1e308\x7dIMAGE\x7b00\x7d".toList

/-- A gamma that overflows is not reported: neither as a success nor with a line of text. -/
theorem not_reports_overflowing : ¬ ∃ (_ : Quotes) (report : Report),
    Report.ofResult "x.sng" (compile overflowingSource {}).1 = .ok report := by
  have hfailure : (compile overflowingSource {}).1 = .error (.number .infinite) := by
    decide +kernel
  rintro ⟨_, report, hreport⟩
  rw [hfailure] at hreport
  cases hreport

end ScriptedPng
