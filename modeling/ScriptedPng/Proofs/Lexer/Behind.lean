import ScriptedPng.Proofs.Lexer.Lexeme
import ScriptedPng.Proofs.Lockstep

/-!
# What comes behind

Reading a token or a data segment may be settled by some characters in front, whatever comes behind
them. If it is not, then it asks for what comes behind: it fails if reading fails there, and finds
the end if nothing is there.

## Main definitions

* `Lexer.asked`, `Lexer.Passed` — how many readings the lexer has asked for, and whether one of the
  last ones is among them.
* `Lexer.Settled`, `Lexer.Unsettled` — whether what comes behind matters.
* `Lexer.Tracking` — a relation between two lexers that reading keeps.
* `Lexer.Cut`, `Lexer.Marked` — a lexer on a source that is cut off, and one whose end is marked.

## Main statements

* `Lexer.settled_or_scan`, `Lexer.settled_or_collect` — reading is settled, or it is not.
* `Lexer.tracking_cut`, `Lexer.tracking_marked` — both relations are kept.
-/

namespace ScriptedPng.Lexer

open Diagnostic

variable {n : Nat} {rest tail : List Reading} {lexer : Lexer} {reason : String}

/-! ## Asking for the last readings -/

/-- How many readings have been asked for, of so many in all. -/
def asked (total : Nat) (lexer : Lexer) : Nat :=
  total + lexer.source.held.toNat - lexer.source.ahead.length

/-- The lexer has asked for one of the last `n` readings, which may have been put back. -/
def Passed (n : Nat) (lexer : Lexer) : Prop :=
  lexer.source.ahead.length < n + lexer.source.held.toNat

/-- Whatever becomes of an action, one of the last `n` readings has been asked for. -/
abbrev Passes {α : Type} (n : Nat) (result : EStateM.Result Diagnostic Lexer α) : Prop :=
  Outcome (fun _ => Passed n) (fun _ => Passed n) result

/-- The readings behind the first `n` ones are the last ones. -/
theorem lt_asked_iff {total : Nat} (h : n ≤ total) :
    n < lexer.asked total ↔ Passed (total - n) lexer := by
  unfold asked Passed
  omega

theorem passed_skipTo (h : rest.length < n) : Passed n (lexer.skipTo rest) :=
  Nat.lt_add_right _ h

theorem passes_finish {α : Type} {onEnd : LexerM α} (hpassed : Passed n lexer)
    (h : Passes n (onEnd lexer)) : Passes n (finish onEnd lexer) := by
  unfold finish
  split
  · exact h
  · exact hpassed

theorem passes_readWord (hpos : 0 < n) (hspan : (span Token.isWordChar rest).2.length ≤ n)
    (hdrop : rest.length < n + Token.lengthLimit) (c : Char) :
    Passes n (readWord c rest lexer) := by
  simp only [readWord]
  split
  · exact passed_skipTo (by grind)
  · split <;> rename_i heq <;> rw [heq] at hspan
    · exact passes_finish (passed_skipTo hpos) (passed_skipTo hpos)
    · exact passed_skipTo (Nat.lt_of_lt_of_le (Nat.lt_succ_self _) hspan)
    · split
      · exact passed_skipTo (Nat.lt_of_lt_of_le (Nat.lt_succ_self _) hspan)
      · split
        · exact passed_skipTo (Nat.lt_of_lt_of_le (Nat.lt_succ_self _) hspan)
        · exact Nat.lt_succ_of_le hspan

theorem passes_readString {quote : Char} (hpos : 0 < n)
    (hspan : (span (fun c => c ≠ quote && c ≠ '\n') rest).2.length ≤ n)
    (hdrop : rest.length ≤ n + Token.lengthLimit) : Passes n (readString quote rest lexer) := by
  simp only [readString]
  split
  · exact passed_skipTo (by grind)
  · split <;> rename_i heq <;> rw [heq] at hspan
    · exact passes_finish (passed_skipTo hpos) (passed_skipTo hpos)
    · exact passed_skipTo (Nat.lt_of_lt_of_le (Nat.lt_succ_self _) hspan)
    · split <;> exact passed_skipTo (Nat.lt_of_lt_of_le (Nat.lt_succ_self _) hspan)

/-- Something is asked for behind a gap, even if it is only the end. -/
theorem passes_scan (hpos : 0 < n)
    (hgap : (skipGap false lexer.line lexer.source.ahead).2.length ≤ n) :
    Passes n (scan lexer) := by
  simp only [scan]
  split <;> rename_i heq <;> rw [heq] at hgap
  · exact passes_finish (passed_skipTo hpos) (passed_skipTo hpos)
  · exact passed_skipTo (Nat.lt_of_lt_of_le (Nat.lt_succ_self _) hgap)
  · rename_i c rest
    have hrest : rest.length < n := Nat.lt_of_lt_of_le (Nat.lt_succ_self _) hgap
    split
    · exact passes_readString hpos (by grind [length_span]) (by omega)
    · split
      · exact passed_skipTo hrest
      · exact passes_readWord hpos (by grind [length_span]) (by omega) c

theorem passes_collectInto (hpos : 0 < n) (h : rest.length ≤ n) (collector : Segment.Collector) :
    Passes n (collectInto collector rest lexer) := by
  induction rest generalizing lexer collector with
  | nil => exact passes_finish (passed_skipTo hpos) (passed_skipTo hpos)
  | cons reading rest ih =>
    have hrest : rest.length < n := Nat.lt_of_lt_of_le (Nat.lt_succ_self _) h
    cases reading with
    | none => exact passed_skipTo hrest
    | some c =>
      have hafter : Passed n (if c = '\n' then
          { lexer.skipTo rest with line := (lexer.skipTo rest).line + 1 }
          else lexer.skipTo rest) := by
        split <;> exact Nat.lt_add_right _ hrest
      simp only [collectInto]
      split
      · split <;> exact hafter
      · split
        · exact ih (Nat.le_of_lt hrest) _
        · exact hafter

/-- What has been asked for stays asked for. -/
theorem length_le_of_passed (h : Passed n lexer) : lexer.source.ahead.length ≤ n := by
  have := Bool.toNat_le lexer.source.held
  unfold Passed at h
  omega

theorem maintains_scan (hpos : 0 < n) : Maintains (Passed n) scan := by
  intro lexer h
  refine (passes_scan hpos ?_).mono (fun _ _ h => ⟨trivial, h⟩) fun _ _ h => ⟨trivial, h⟩
  exact Nat.le_trans (length_skipGap _ _ _) (length_le_of_passed h)

theorem maintains_next (hpos : 0 < n) : Maintains (Passed n) next := by
  intro lexer h
  unfold next
  split
  · exact ⟨trivial, h⟩
  · exact maintains_scan hpos lexer h

theorem maintains_collect (hpos : 0 < n) (alphabet : Segment.Alphabet) :
    Maintains (Passed n) (collect alphabet) := by
  intro lexer h
  exact (passes_collectInto hpos (length_le_of_passed h) _).mono (fun _ _ h => ⟨trivial, h⟩)
    fun _ _ h => ⟨trivial, h⟩

/-! ## Where scanning ends -/

/-- A gap ends among the characters in front, or goes on behind them. -/
theorem skipGap_append (inComment : Bool) (line : Nat) (front : List Char) :
    (∃ (line' : Nat) (c : Char) (rest : List Char), ∀ tail,
      skipGap inComment line (front.map some ++ tail) =
        (line', some c :: (rest.map some ++ tail))) ∨
    ∃ line' inComment', ∀ tail,
      skipGap inComment line (front.map some ++ tail) = skipGap inComment' line' tail := by
  induction front generalizing inComment line with
  | nil => exact .inr ⟨line, inComment, fun _ => rfl⟩
  | cons c front ih =>
    simp only [List.map_cons, List.cons_append]
    by_cases hnewline : c = '\n'
    · simpa only [hnewline, skipGap] using ih false (line + 1)
    · cases inComment with
      | true =>
        have hskip (readings : List Reading) :
            skipGap true line (some c :: readings) = skipGap true line readings := by
          simp [skipGap, hnewline]
        simpa only [hskip] using ih true line
      | false =>
        by_cases hmark : c = Token.commentMark
        · subst hmark
          simpa only [skipGap_commentMark] using ih true line
        · by_cases hblank : Text.isBlank c = true
          · simpa [hnewline, hmark, hblank, skipGap] using ih false line
          · exact .inl ⟨line, c, front, fun tail => by simp [hmark, hblank, skipGap]⟩

/-- A run of characters ends among those in front, or goes on behind them. -/
theorem span_append_front (test : Char → Bool) (front : List Char) :
    (∃ (body : List Char) (c : Char) (rest : List Char), front = body ++ c :: rest ∧ ∀ tail,
      span test (front.map some ++ tail) = (body, some c :: (rest.map some ++ tail))) ∨
    ∀ tail, span test (front.map some ++ tail) =
      (front ++ (span test tail).1, (span test tail).2) := by
  induction front with
  | nil => exact .inr fun _ => rfl
  | cons c front ih =>
    by_cases htest : test c = true
    · obtain ⟨body, d, rest, rfl, hspan⟩ | hspan := ih
      · exact .inl ⟨c :: body, d, rest, rfl, fun tail => by simp_all [span]⟩
      · exact .inr fun tail => by simp_all [span]
    · exact .inl ⟨[], c, front, rfl, fun tail => by simp [span, htest]⟩

/-- What is left of the characters in front when a limit has been reached among them. -/
theorem drop_append_front {front : List Char} {limit : Nat} (h : limit ≤ front.length) :
    (front.map some ++ tail).drop limit = (front.drop limit).map some ++ tail := by
  rw [List.drop_append_of_le_length (by simpa using h), List.map_drop]

/-! ## Settled by what is in front -/

/-- The lexer with the characters to come, and `tail` behind them. -/
def upTo (front : List Char) (held : Bool) (line : Nat) (token : Option Token)
    (tail : List Reading) (fault : Option String) : Lexer :=
  ⟨⟨front.map some ++ tail, fault, held⟩, line, token, false⟩

variable {α : Type} {run : List Reading → Option String → EStateM.Result Diagnostic Lexer α}

/-- What an action comes to is settled, whatever comes behind. -/
inductive Settled (run : List Reading → Option String → EStateM.Result Diagnostic Lexer α) : Prop
  | ok (value : α) (front : List Char) (held : Bool) (line : Nat) (token : Option Token)
      (hheld : held = true → front ≠ [])
      (h : ∀ tail fault, run tail fault = .ok value (upTo front held line token tail fault))
  | error (diagnostic : Diagnostic) (front : List Char) (line : Nat) (token : Option Token)
      (h : ∀ tail fault,
        run tail fault = .error diagnostic (upTo front false line token tail fault))

/-- Nothing is left of the source, and its end has been found. -/
def Ended (lexer : Lexer) : Prop :=
  ∃ line token, lexer = upTo [] false line token [] none

/-- What an action comes to depends on what comes behind, and that is asked for: reading fails if it
fails there, and the end makes no difference to finding nothing. -/
structure Unsettled (run : List Reading → Option String → EStateM.Result Diagnostic Lexer α) :
    Prop where
  passes : ∀ tail, 0 < tail.length → Passes tail.length (run tail none)
  fails : ∀ reason, ∃ after, run [] (some reason) = .error ⟨.readFailed reason, none⟩ after
  marked : run [none] none = run [] none
  ended : Outcome (fun _ => Ended) (fun _ => Ended) (run [] none)

variable {start front : List Char} {held : Bool} {line : Nat} {token : Option Token}

theorem settled_or_readWord (c : Char) :
    Settled (fun tail fault =>
      readWord c (front.map some ++ tail) (upTo start held line token tail fault)) ∨
    Unsettled (fun tail fault =>
      readWord c (front.map some ++ tail) (upTo start held line token tail fault)) := by
  obtain ⟨body, d, rest, hbody, hspan⟩ | hspan := span_append_front Token.isWordChar front
  · refine .inl ?_
    by_cases hlong : Token.lengthLimit ≤ body.length
    · refine .error ⟨.wordTooLong, some (.at line)⟩ (front.drop Token.lengthLimit) line token ?_
      intro tail fault
      simp only [readWord, hspan]
      rw [if_pos hlong, drop_append_front (by grind)]
      rfl
    · let word (line : Nat) : Token := ⟨String.ofList (c :: body), line, false⟩
      by_cases hblank : Text.isBlank d = true
      · refine .ok (some (word line)) rest false (if d = '\n' then line + 1 else line)
          (some (word line)) (by simp) fun tail fault => ?_
        simp only [readWord, hspan]
        rw [if_neg hlong, if_pos hblank]
        split <;> rfl
      · refine .ok (some (word line)) (d :: rest) true line (some (word line)) (by simp)
          fun tail fault => ?_
        have hnewline : d ≠ '\n' := by
          rintro rfl
          exact hblank Text.isBlank_newline
        simp only [readWord, hspan]
        rw [if_neg hlong, if_neg hnewline, if_neg hblank]
        rfl
  · by_cases hlong : Token.lengthLimit ≤ front.length
    · refine .inl (.error ⟨.wordTooLong, some (.at line)⟩ (front.drop Token.lengthLimit) line token
        fun tail fault => ?_)
      simp only [readWord, hspan]
      rw [if_pos (by grind), drop_append_front hlong]
      rfl
    · refine .inr ⟨fun tail htail => ?_,
        fun reason => ⟨upTo [] false line token [] (some reason), ?_⟩, ?_, ?_⟩
      · refine passes_readWord htail ?_ ?_ c
        · rw [hspan]
          exact length_span _ _
        · simp only [List.length_append, List.length_map]
          omega
      · simp only [readWord, hspan]
        rw [if_neg (by simpa [span] using hlong)]
        rfl
      · simp only [readWord, hspan]
        rw [if_neg (by simpa [span] using hlong), if_neg (by simpa [span] using hlong)]
        rfl
      · simp only [readWord, hspan]
        rw [if_neg (by simpa [span] using hlong)]
        exact ⟨_, _, rfl⟩

theorem settled_or_readString (quote : Char) :
    Settled (fun tail fault =>
      readString quote (front.map some ++ tail) (upTo start held line token tail fault)) ∨
    Unsettled (fun tail fault =>
      readString quote (front.map some ++ tail) (upTo start held line token tail fault)) := by
  obtain ⟨body, d, rest, hbody, hspan⟩ | hspan :=
    span_append_front (fun c => c ≠ quote && c ≠ '\n') front
  · refine .inl ?_
    by_cases hlong : Token.lengthLimit < body.length
    · refine .error ⟨.stringTooLong, some (.at line)⟩ (front.drop (Token.lengthLimit + 1)) line
        token fun tail fault => ?_
      simp only [readString, hspan]
      rw [if_pos hlong, drop_append_front (by grind)]
      rfl
    · by_cases hquote : d = quote
      · refine .ok (some ⟨String.ofList body, line, true⟩) rest false line
          (some ⟨String.ofList body, line, true⟩) (by simp) fun tail fault => ?_
        simp only [readString, hspan]
        rw [if_neg hlong, if_pos hquote]
        rfl
      · refine .error ⟨.newlineInString, some (.at line)⟩ rest line token fun tail fault => ?_
        simp only [readString, hspan]
        rw [if_neg hlong, if_neg hquote]
        rfl
  · by_cases hlong : Token.lengthLimit < front.length
    · refine .inl (.error ⟨.stringTooLong, some (.at line)⟩ (front.drop (Token.lengthLimit + 1))
        line token fun tail fault => ?_)
      simp only [readString, hspan]
      rw [if_pos (by grind), drop_append_front hlong]
      rfl
    · refine .inr ⟨fun tail htail => ?_,
        fun reason => ⟨upTo [] false line token [] (some reason), ?_⟩, ?_, ?_⟩
      · refine passes_readString htail ?_ ?_
        · rw [hspan]
          exact length_span _ _
        · simp only [List.length_append, List.length_map]
          omega
      · simp only [readString, hspan]
        rw [if_neg (by simpa [span] using hlong)]
        rfl
      · simp only [readString, hspan]
        rw [if_neg (by simpa [span] using hlong), if_neg (by simpa [span] using hlong)]
        rfl
      · simp only [readString, hspan]
        rw [if_neg (by simpa [span] using hlong)]
        exact ⟨_, _, rfl⟩

/-- The next token is settled by what is in front, or it is not. -/
theorem settled_or_scan :
    Settled (fun tail fault => scan (upTo front held line token tail fault)) ∨
    Unsettled (fun tail fault => scan (upTo front held line token tail fault)) := by
  obtain ⟨line', c, rest, hgap⟩ | ⟨line', inComment, hgap⟩ := skipGap_append false line front
  · have hscan (tail : List Reading) (fault : Option String) :=
      @scan_eq (upTo front held line token tail fault) _ _ _ (hgap tail)
    simp only [hscan]
    by_cases hquote : Token.isQuote c = true
    · simp only [if_pos hquote]
      exact settled_or_readString c
    · simp only [if_neg hquote]
      by_cases hmark : Text.isPunctuation c = true
      · simp only [if_pos hmark]
        exact .inl (.ok _ rest false line' _ (by simp) fun _ _ => rfl)
      · simp only [if_neg hmark]
        exact settled_or_readWord c
  · have hend (fault : Option String) : skipGap false (upTo front held line token [] fault).line
        (upTo front held line token [] fault).source.ahead = (line', []) := by
      cases inComment <;> exact hgap []
    refine .inr ⟨fun tail htail => ?_,
      fun reason => ⟨upTo [] false line' token [] (some reason), ?_⟩, ?_, ?_⟩
    · refine passes_scan htail ?_
      have hlength := length_skipGap inComment line' tail
      rwa [← hgap tail] at hlength
    · simp only [scan, hend]
      rfl
    · simp only [scan, hend]
      cases inComment <;>
        rw [show skipGap false (upTo front held line token [none] none).line
          (upTo front held line token [none] none).source.ahead = _ from hgap [none]] <;> rfl
    · simp only [scan, hend]
      exact ⟨_, _, rfl⟩

/-- A data segment is settled by what is in front, or it is not. -/
theorem settled_or_collectInto (collector : Segment.Collector) :
    Settled (fun tail fault =>
      collectInto collector (front.map some ++ tail) (upTo start held line token tail fault)) ∨
    Unsettled (fun tail fault =>
      collectInto collector (front.map some ++ tail) (upTo start held line token tail fault)) := by
  induction front generalizing collector start held line with
  | nil =>
    exact .inr ⟨fun tail htail => passes_collectInto htail (Nat.le_refl _) collector,
      fun reason => ⟨upTo [] false line token [] (some reason), rfl⟩, rfl, ⟨_, _, rfl⟩⟩
  | cons c front ih =>
    -- The line behind the character.
    let next := if c = '\n' then line + 1 else line
    have hafter (tail : List Reading) (fault : Option String) :
        (if c = '\n' then
          { (upTo start held line token tail fault).skipTo (front.map some ++ tail) with
            line := ((upTo start held line token tail fault).skipTo
              (front.map some ++ tail)).line + 1 }
        else (upTo start held line token tail fault).skipTo (front.map some ++ tail)) =
          upTo front false next token tail fault := by
      by_cases hnewline : c = '\n' <;> simp only [next, hnewline, if_true, if_false] <;> rfl
    simp only [List.map_cons, List.cons_append, collectInto, hafter]
    by_cases hclose : c = '\x7d'
    · simp only [if_pos hclose]
      cases collector.finish with
      | ok octets => exact .inl (.ok octets front false next token (by simp) fun _ _ => rfl)
      | error cause => exact .inl (.error ⟨cause, none⟩ front next token fun _ _ => rfl)
    · simp only [if_neg hclose]
      cases collector.feed c with
      | ok collector => exact ih collector
      | error cause => exact .inl (.error ⟨cause, none⟩ front next token fun _ _ => rfl)

theorem settled_or_collect (alphabet : Segment.Alphabet) :
    Settled (fun tail fault => collect alphabet (upTo front held line token tail fault)) ∨
    Unsettled (fun tail fault => collect alphabet (upTo front held line token tail fault)) :=
  settled_or_collectInto _

/-! ## Relations that reading keeps -/

/-- A relation between two lexers that reading keeps, or else the second one has lost the first. -/
structure Tracking (step : Lexer → Lexer → Prop) (lost : Lexer → Diagnostic → Lexer → Prop) :
    Prop where
  next : Tracks step lost Eq next next
  collect : ∀ alphabet, Tracks step lost Eq (collect alphabet) (collect alphabet)
  line_eq : ∀ first second, step first second → second.line = first.line

namespace Tracking

variable {step : Lexer → Lexer → Prop} {lost : Lexer → Diagnostic → Lexer → Prop}

theorem fail (h : Tracking step lost) (cause : Cause) :
    Tracks step lost Eq (fail cause : LexerM α) (fail cause) where
  lockstep first second hstep := by
    refine .inl ⟨?_, hstep⟩
    rw [h.line_eq first second hstep]
  stays _ _ _ hlost := ⟨trivial, hlost⟩

theorem inner (h : Tracking step lost) : Tracks step lost Eq inner inner := by
  refine .bind_eq h.next fun found => ?_
  cases found with
  | none => exact h.fail _
  | some token => exact .pure rfl

theorem require (h : Tracking step lost) (text : String) :
    Tracks step lost Eq (require text) (require text) := by
  refine .bind_eq h.next fun found => ?_
  cases found with
  | none => exact h.fail _
  | some token => exact .ite Iff.rfl (.pure rfl) (.throw _)

end Tracking

/-- The first lexer is on a whole source, and the second one on what is in front of the cut. -/
inductive Cut (tail : List Reading) (reason : String) : Lexer → Lexer → Prop
  | intro (front : List Char) (held : Bool) (line : Nat) (token : Option Token)
      (hheld : held = true → front ≠ []) :
      Cut tail reason (upTo front held line token tail none)
        (upTo front held line token [] (some reason))

/-- Reading has failed behind the cut. The first lexer has asked for something behind it. -/
def LostBehind (tail : List Reading) (reason : String) (whole : Lexer) (diagnostic : Diagnostic)
    (_ : Lexer) : Prop :=
  Passed tail.length whole ∧ diagnostic = ⟨.readFailed reason, none⟩

/-- What is settled in front of the cut goes along; else reading fails behind it. -/
theorem lockstep_cut (htail : 0 < tail.length) (h : Settled run ∨ Unsettled run) :
    Lockstep (fun value after value' after' => value = value' ∧ Cut tail reason after after')
      (fun failure after failure' after' => failure' = failure ∧ Cut tail reason after after')
      (LostBehind tail reason) (run tail none) (run [] (some reason)) := by
  obtain (⟨_, front, held, line, token, hheld, h⟩ | ⟨_, front, line, token, h⟩) | h := h
  · rw [h, h]
    exact ⟨rfl, .intro front held line token hheld⟩
  · rw [h, h]
    exact .inl ⟨rfl, .intro front false line token (by simp)⟩
  · obtain ⟨after, hfails⟩ := h.fails reason
    rw [hfails]
    exact .of_lost ((h.passes tail htail).mono (fun _ _ h => ⟨trivial, h, rfl⟩)
      fun _ _ h => ⟨trivial, h, rfl⟩)

theorem stays_lostBehind {action : LexerM α} (h : Maintains (Passed tail.length) action)
    (diagnostic : Diagnostic) (cut : Lexer) :
    Maintains (LostBehind tail reason · diagnostic cut) action :=
  fun whole hlost => (h whole hlost.1).mono (fun _ _ h => ⟨trivial, h.2, hlost.2⟩)
    fun _ _ h => ⟨trivial, h.2, hlost.2⟩

/-- Reading goes along with reading from a source that is cut off. -/
theorem tracking_cut (htail : 0 < tail.length) :
    Tracking (Cut tail reason) (LostBehind tail reason) where
  next := by
    refine ⟨fun whole cut h => ?_, stays_lostBehind (maintains_next htail)⟩
    obtain ⟨front, held, line, token, -⟩ := h
    exact lockstep_cut htail settled_or_scan
  collect alphabet := by
    refine ⟨fun whole cut h => ?_, stays_lostBehind (maintains_collect htail alphabet)⟩
    obtain ⟨front, held, line, token, -⟩ := h
    exact lockstep_cut htail (settled_or_collect alphabet)
  line_eq := by
    rintro _ _ ⟨⟩
    rfl

/-- Nothing behind the cut has been asked for. -/
theorem Cut.not_passed {whole cut : Lexer} (h : Cut tail reason whole cut) :
    ¬ Passed tail.length whole := by
  obtain ⟨front, held, line, token, hheld⟩ := h
  simp only [Passed, upTo, List.length_append, List.length_map]
  cases held with
  | false => simp
  | true =>
    have hpos := List.length_pos_iff.2 (hheld rfl)
    simp only [Bool.toNat_true]
    omega

/-- On a source that is cut off, no end is found. -/
theorem Cut.next_ne_none {whole cut after : Lexer} (h : Cut tail reason whole cut) :
    next cut ≠ .ok none after := by
  obtain ⟨front, held, line, token, -⟩ := h
  intro hnext
  have hahead : (upTo front held line token [] (some reason)).source.ahead = front.map some :=
    List.append_nil _
  have houtcome := outcome_next (resumes_of_ahead hahead rfl)
  rw [hnext] at houtcome
  obtain ⟨-, ⟨-, -, -, hfault⟩ | ⟨_, _, _, _, hfound, -⟩⟩ := houtcome
  · cases hfault
  · cases hfound

/-- The end of the first source may be marked by a reading of its own. -/
inductive Marked : Lexer → Lexer → Prop
  | intro (front : List Char) (held : Bool) (line : Nat) (token : Option Token)
      (tail : List Reading) (htail : tail = [] ∨ tail = [none]) :
      Marked (upTo front held line token tail none) (upTo front held line token [] none)

theorem lockstep_marked (htail : tail = [] ∨ tail = [none]) (h : Settled run ∨ Unsettled run) :
    Lockstep (fun value after value' after' => value = value' ∧ Marked after after')
      (fun failure after failure' after' => failure' = failure ∧ Marked after after')
      (fun _ _ _ => False) (run tail none) (run [] none) := by
  obtain (⟨_, front, held, line, token, hheld, h⟩ | ⟨_, front, line, token, h⟩) | h := h
  · rw [h, h]
    exact ⟨rfl, .intro front held line token tail htail⟩
  · rw [h, h]
    exact .inl ⟨rfl, .intro front false line token tail htail⟩
  · have hended := h.ended
    have hmarked : run tail none = run [] none := by
      obtain rfl | rfl := htail
      · rfl
      · exact h.marked
    rw [hmarked]
    cases hresult : run [] none with
    | ok value after =>
      rw [hresult] at hended
      obtain ⟨line, token, rfl⟩ := hended
      exact ⟨rfl, .intro [] false line token [] (.inl rfl)⟩
    | error diagnostic after =>
      rw [hresult] at hended
      obtain ⟨line, token, rfl⟩ := hended
      exact .inl ⟨rfl, .intro [] false line token [] (.inl rfl)⟩

/-- Reading does not tell whether the end is marked. -/
theorem tracking_marked : Tracking Marked fun _ _ _ => False where
  next := by
    refine ⟨fun first second h => ?_, fun _ _ _ h => h.elim⟩
    obtain ⟨front, held, line, token, tail, htail⟩ := h
    exact lockstep_marked htail settled_or_scan
  collect alphabet := by
    refine ⟨fun first second h => ?_, fun _ _ _ h => h.elim⟩
    obtain ⟨front, held, line, token, tail, htail⟩ := h
    exact lockstep_marked htail (settled_or_collect alphabet)
  line_eq := by
    rintro _ _ ⟨⟩
    rfl

end ScriptedPng.Lexer
