import ScriptedPng.Proofs.Lexer.Lexeme

/-!
# Lines

The lexer counts a newline when it reads it, so the line it has reached and the newlines to come
always add up to the last line of the source. A newline that breaks off a string is the exception:
it is read, but the diagnostic belongs to the line in front of it.

## Main definitions

* `Lexer.lineAfter` — the line that characters lead to.
* `Lexer.At` — the lexer is at a place in a source.
* `Lexer.JustRead` — a token is the last thing that has been read.
* `Lexer.Call` — the calls of the lexer, and `Lexer.Reaches`, what a sequence of them leads to.

## Main statements

* `Lexer.lastLine_skipGap` — no newline is lost in a gap.
* `Lexer.outcome_next_at`, `Lexer.outcome_readChar_at`, `Lexer.outcome_collect_at` — what is read at
  a place, and the place reached then.
* `Lexer.onward_of_reaches` — the line is right after any sequence of calls.
-/

namespace ScriptedPng.Lexer

open Text Diagnostic

/-- The line that characters from the start of a source lead to. -/
def lineAfter (done : List Char) : Nat :=
  1 + done.count '\n'

/-- The newlines to come. -/
def newlines (readings : List Reading) : Nat :=
  readings.count (some '\n')

/-- The line on which the source ends. -/
def lastLine (lexer : Lexer) : Nat :=
  lexer.line + newlines lexer.source.ahead

@[simp] theorem line_skipTo (rest : List Reading) (lexer : Lexer) :
    (lexer.skipTo rest).line = lexer.line := rfl

@[simp] theorem ahead_skipTo (rest : List Reading) (lexer : Lexer) :
    (lexer.skipTo rest).source.ahead = rest := rfl

@[simp] theorem lineAfter_nil : lineAfter [] = 1 := rfl

@[simp] theorem newlines_nil : newlines [] = 0 := rfl

@[grind =] theorem newlines_cons (reading : Reading) (readings : List Reading) :
    newlines (reading :: readings) =
      newlines readings + if reading = some '\n' then 1 else 0 := by
  simp [newlines, List.count_cons]

@[simp] theorem newlines_map (chars : List Char) :
    newlines (chars.map some) = chars.count '\n' := by
  induction chars with
  | nil => rfl
  | cons c chars ih => grind

theorem lineAfter_append (done more : List Char) :
    lineAfter (done ++ more) = lineAfter done + more.count '\n' := by
  simp [lineAfter, Nat.add_assoc]

theorem lineAfter_le {done more : List Char} : lineAfter done ≤ lineAfter (done ++ more) := by
  grind [lineAfter_append]

theorem one_le_lineAfter (done : List Char) : 1 ≤ lineAfter done :=
  Nat.le_add_right _ _

/-! ## No newline is lost -/

/-- The newlines in a gap are counted. -/
theorem lastLine_skipGap (inComment : Bool) (line : Nat) (readings : List Reading) :
    (skipGap inComment line readings).1 + newlines (skipGap inComment line readings).2 =
      line + newlines readings := by
  fun_induction skipGap inComment line readings <;> grind

theorem le_skipGap (inComment : Bool) (line : Nat) (readings : List Reading) :
    line ≤ (skipGap inComment line readings).1 := by
  fun_induction skipGap inComment line readings <;> grind

/-- Characters that pass a test which newlines fail hold no newline. -/
theorem newlines_span {test : Char → Bool} (h : test '\n' = false) (readings : List Reading) :
    newlines (span test readings).2 = newlines readings := by
  fun_induction span test readings <;> grind

theorem isWordChar_newline : Token.isWordChar '\n' = false := by decide

/-- Where a diagnostic of the lexer belongs. The line is between the one on which the lexer has
begun and the last one; if reading has failed, the whole source has been read. -/
structure Marks (first last : Nat) (diagnostic : Diagnostic) (after : Lexer) : Prop where
  lexical : IsLexical diagnostic
  line : ∃ number, diagnostic.line.getD (.at after.line) = .at number ∧ first ≤ number ∧
    number ≤ last
  readFailed : ∀ reason, diagnostic.cause = .readFailed reason →
    diagnostic.line = none ∧ after.line = last

variable {lexer : Lexer} {first last : Nat}

theorem marks_fail {α : Type} {cause : Cause} {post : α → Lexer → Prop} {after : Lexer}
    (hcategory : cause.category = .lexical) (hcause : ∀ reason, cause ≠ .readFailed reason)
    (hfirst : first ≤ after.line) (hlast : after.line ≤ last) :
    Outcome post (Marks first last) (fail cause after) where
  lexical := hcategory
  line := ⟨after.line, rfl, hfirst, hlast⟩
  readFailed reason h := (hcause reason h).elim

theorem marks_finish {α : Type} {onEnd : LexerM α} {post : α → Lexer → Prop}
    (h : Outcome post (Marks first last) (onEnd lexer)) (hfirst : first ≤ lexer.line)
    (hlast : lexer.line = last) : Outcome post (Marks first last) (finish onEnd lexer) := by
  unfold finish
  split
  · exact h
  · exact ⟨rfl, ⟨lexer.line, rfl, hfirst, Nat.le_of_eq hlast⟩, fun _ _ => ⟨rfl, hlast⟩⟩

/-- No newline up to the given last line is lost, and the token found, if any, is on the line. -/
def Gives (line last : Nat) (found : Option Token) (after : Lexer) : Prop :=
  after.lastLine = last ∧ ∀ token ∈ found, after.token = some token ∧ token.line = line

theorem gives_deliver {fault : Diagnostic → Lexer → Prop} (h : lexer.lastLine = last)
    (text : String) (line : Nat) (quoted : Bool) :
    Outcome (Gives line last) fault (deliver text line quoted lexer) := by
  refine ⟨h, ?_⟩
  rintro _ ⟨⟩
  exact ⟨rfl, rfl⟩

/-- The newline behind a word is counted with the word. -/
theorem outcome_readWord_lines (hfirst : first ≤ lexer.line) (c : Char) (rest : List Reading) :
    Outcome (Gives lexer.line (lexer.line + newlines rest))
      (Marks first (lexer.line + newlines rest)) (readWord c rest lexer) := by
  have hspan := newlines_span isWordChar_newline rest
  simp only [readWord]
  split
  · exact marks_fail rfl (by simp) hfirst (Nat.le_add_right _ _)
  · split <;> rename_i heq <;> rw [heq] at hspan
    · have hnone : newlines rest = 0 := hspan.symm
      exact marks_finish (gives_deliver (by simp [lastLine, hnone]) _ _ _) hfirst (by simp [hnone])
    · exact gives_deliver (by grind [lastLine, line_skipTo, ahead_skipTo]) _ _ _
    · split
      · exact gives_deliver (by grind [lastLine, line_skipTo, ahead_skipTo]) _ _ _
      · split
        · exact gives_deliver (by grind [lastLine, line_skipTo, ahead_skipTo]) _ _ _
        · exact gives_deliver (by grind [lastLine]) _ _ _

/-- A string has no newline in it. One that breaks it off is read, and its line is marked. -/
theorem outcome_readString_lines (hfirst : first ≤ lexer.line) {quote : Char}
    (hquote : quote ≠ '\n') (rest : List Reading) :
    Outcome (Gives lexer.line (lexer.line + newlines rest))
      (Marks first (lexer.line + newlines rest)) (readString quote rest lexer) := by
  have hspan := @newlines_span (fun c => c ≠ quote && c ≠ '\n') (by simp) rest
  simp only [readString]
  split
  · exact marks_fail rfl (by simp) hfirst (Nat.le_add_right _ _)
  · split <;> rename_i heq <;> rw [heq] at hspan
    · have hnone : newlines rest = 0 := hspan.symm
      refine marks_finish (marks_fail rfl (by simp) hfirst ?_) hfirst ?_ <;> simp [hnone]
    · exact marks_fail rfl (by simp) hfirst (Nat.le_add_right _ _)
    · split
      · exact gives_deliver (by grind [lastLine, line_skipTo, ahead_skipTo]) _ _ _
      · exact marks_fail rfl (by simp) hfirst (Nat.le_add_right _ _)

/-- No newline is lost when a token is read, and its line is the one behind the gap. -/
theorem outcome_scan_lines (lexer : Lexer) :
    Outcome (Gives (skipGap false lexer.line lexer.source.ahead).1 lexer.lastLine)
      (Marks lexer.line lexer.lastLine) (scan lexer) := by
  have hlast : (skipGap false lexer.line lexer.source.ahead).1 +
      newlines (skipGap false lexer.line lexer.source.ahead).2 = lexer.lastLine :=
    lastLine_skipGap false lexer.line lexer.source.ahead
  have hfirst := le_skipGap false lexer.line lexer.source.ahead
  simp only [scan]
  split <;> rename_i heq <;> rw [heq] at hlast
  · refine marks_finish ⟨hlast, ?_⟩ hfirst hlast
    rintro _ ⟨⟩
  · refine ⟨?_, ?_⟩
    · grind [lastLine, line_skipTo, ahead_skipTo]
    · rintro _ ⟨⟩
  · rename_i c rest
    have hnewline : c ≠ '\n' := by
      have := not_isBlank_of_skipGap heq
      rintro rfl
      cases this
    have hrest : (skipGap false lexer.line lexer.source.ahead).1 + newlines rest =
        lexer.lastLine := by grind
    rw [← hrest]
    split
    · exact outcome_readString_lines hfirst hnewline rest
    · split
      · exact gives_deliver (by rfl) _ _ _
      · exact outcome_readWord_lines hfirst c rest

/-! ## Places -/

/-- The lexer has read some characters of a source, and the others are to come. -/
structure At (done rest : List Char) (lexer : Lexer) : Prop where
  ahead : lexer.source.ahead = rest.map some
  line : lexer.line = lineAfter done
  pushed : lexer.pushed = false

/-- The token has just been read: it stands behind the characters `before`, on the line they lead
to, and nothing has been read after it but blanks. -/
structure JustRead (before done rest : List Char) (token : Token) : Prop where
  line : token.line = lineAfter before
  spelled : ∃ (lexeme : Lexeme) (gone : List Char), done = before ++ (lexeme.chars ++ gone) ∧
    lexeme.Legal ∧ lexeme.Ends (gone ++ rest) ∧ lexeme.Gives token ∧
    ∀ c ∈ gone, isBlank c = true

variable {after : Lexer} {done rest : List Char}

theorem at_ofSource (chars : List Char) (fault : Option String) :
    At [] chars (ofSource { Source.ofChars chars with fault }) :=
  ⟨rfl, rfl, rfl⟩

theorem At.lastLine_eq (h : At done rest lexer) : lexer.lastLine = lineAfter (done ++ rest) := by
  simp [lastLine, h.ahead, h.line, lineAfter_append]

/-- The line is that of the next character if no newline has been lost. -/
theorem at_of_lastLine (hahead : after.source.ahead = rest.map some)
    (hlast : after.lastLine = lineAfter (done ++ rest)) (hpushed : after.pushed = false) :
    At done rest after := by
  refine ⟨hahead, ?_, hpushed⟩
  simp only [lastLine, hahead, newlines_map, lineAfter_append] at hlast
  omega

/-- The end of the source has been found, or the token behind a gap has been read. -/
inductive Advance (done rest : List Char) : Option Token → Lexer → Prop
  | ending {after : Lexer} (hgap : IsLastGap rest) (h : At (done ++ rest) [] after) :
      Advance done rest none after
  | token {token : Token} {gap more rest' : List Char} {after : Lexer}
      (hrest : rest = gap ++ (more ++ rest')) (hgap : IsGap gap)
      (hread : JustRead (done ++ gap) (done ++ gap ++ more) rest' token)
      (htoken : after.token = some token) (h : At (done ++ gap ++ more) rest' after) :
      Advance done rest (some token) after

/-- The next token is read at the line where it starts. -/
theorem outcome_next_at (h : At done rest lexer) :
    Outcome (Advance done rest) (Marks (lineAfter done) (lineAfter (done ++ rest)))
      (next lexer) := by
  have hnext := outcome_next (resumes_of_ahead h.ahead h.pushed)
  have hlines := outcome_scan_lines lexer
  rw [← next_eq_scan h.pushed, h.lastLine_eq, h.line, h.ahead] at hlines
  refine (hnext.and hlines).mono ?_ fun _ _ hfault => hfault.2
  intro found after hafter
  obtain ⟨⟨-, hfound⟩, hlast, hline⟩ := hafter
  obtain ⟨rfl, hgap, hresumes, -⟩ | ⟨token, gap, lexeme, tail, rfl, rfl, hgap, hlegal, hends,
    hgives, hresumes⟩ := hfound
  · obtain ⟨gone, more, hnil, -, hahead⟩ := hresumes.ahead
    obtain ⟨rfl, rfl⟩ := List.append_eq_nil_iff.1 hnil.symm
    exact .ending hgap (at_of_lastLine hahead (by simpa using hlast) hresumes.pushed)
  · obtain ⟨gone, more, rfl, hgone, hahead⟩ := hresumes.ahead
    obtain ⟨htoken, hnumber⟩ := hline token rfl
    have hread : gap ++ (lexeme.chars ++ (gone ++ more)) =
        gap ++ ((lexeme.chars ++ gone) ++ more) := by simp
    refine .token hread hgap ⟨?_, lexeme, gone, rfl, hlegal, hends, hgives, hgone⟩ htoken
      (at_of_lastLine hahead (by simpa using hlast) hresumes.pushed)
    -- The lexer has counted the newlines of the gap, and no others.
    have hcount := lastLine_skipGap false (lineAfter done)
      ((gap ++ (lexeme.chars ++ (gone ++ more))).map some)
    have hfirst := skipGap_visible (endsGap_first hlegal) (lineAfter done)
      ((lexeme.more ++ (gone ++ more)).map some)
    rw [skipGap_gap hgap] at hcount
    simp only [Lexeme.chars, List.cons_append, List.map_cons, hfirst] at hcount
    simp only [← List.map_cons, newlines_map, List.count_append] at hcount
    simp only [Lexeme.chars, List.cons_append] at hnumber
    rw [hnumber, lineAfter_append]
    omega

/-- What follows is read up to a later place. -/
def Onward (done rest : List Char) (after : Lexer) : Prop :=
  ∃ more rest', rest = more ++ rest' ∧ At (done ++ more) rest' after

theorem Advance.onward {found : Option Token} (h : Advance done rest found after) :
    Onward done rest after := by
  cases h with
  | ending _ h => exact ⟨rest, [], by simp, h⟩
  | @token _ gap more rest' _ hrest _ _ _ h =>
    exact ⟨gap ++ more, rest', by simp [hrest], by simpa using h⟩

theorem outcome_readChar_at (h : At done rest lexer) :
    Outcome (fun _ => Onward done rest) (Marks (lineAfter done) (lineAfter (done ++ rest)))
      (readChar lexer) := by
  obtain ⟨⟨ahead, fault, held⟩, line, token, pushed⟩ := lexer
  obtain ⟨rfl, rfl, rfl⟩ := h
  cases rest with
  | cons c rest =>
    refine ⟨[c], rest, rfl, rfl, ?_, rfl⟩
    by_cases hnewline : c = '\n' <;> simp [hnewline, lineAfter_append]
  | nil =>
    cases fault with
    | none => exact ⟨[], [], rfl, rfl, by simp, rfl⟩
    | some reason =>
      exact ⟨rfl, ⟨_, rfl, Nat.le_refl _, lineAfter_le⟩, fun _ _ => ⟨rfl, by simp⟩⟩

/-- How a data segment is broken off: the source ends in it, or a character spoils it. -/
inductive Spoilt (done rest : List Char) : Diagnostic → Lexer → Prop
  | readFailed {reason : String} {after : Lexer} (h : after.line = lineAfter (done ++ rest)) :
      Spoilt done rest ⟨.readFailed reason, none⟩ after
  | ended {after : Lexer} :
      Spoilt done rest ⟨.endInData, some (.at (lineAfter (done ++ rest)))⟩ after
  | odd (more rest' : List Char) {after : Lexer} (hrest : rest = more ++ '\x7d' :: rest')
      (h : At (done ++ (more ++ ['\x7d'])) rest' after) :
      Spoilt done rest ⟨.oddHexDigits, none⟩ after
  | character (more rest' : List Char) {c : Char} {after : Lexer}
      (hrest : rest = more ++ c :: rest') (hc : c ≠ '\x7d' ∧ isBlank c = false)
      (h : At (done ++ (more ++ [c])) rest' after) :
      Spoilt done rest ⟨.badDataCharacter, none⟩ after

theorem Onward.cons {c : Char} (h : Onward (done ++ [c]) rest after) :
    Onward done (c :: rest) after := by
  obtain ⟨more, rest', rfl, hafter⟩ := h
  exact ⟨c :: more, rest', rfl, by simpa using hafter⟩

theorem Spoilt.cons {c : Char} {diagnostic : Diagnostic}
    (h : Spoilt (done ++ [c]) rest diagnostic after) :
    Spoilt done (c :: rest) diagnostic after := by
  cases h with
  | readFailed h => exact .readFailed (by simpa using h)
  | @ended after =>
    have hended : Spoilt done (c :: rest) _ after := .ended
    simpa using hended
  | odd more rest' hrest h =>
    exact .odd (c :: more) rest' (congrArg (List.cons c) hrest) (by simpa using h)
  | character more rest' hrest hc h =>
    exact .character (c :: more) rest' (congrArg (List.cons c) hrest) hc (by simpa using h)

theorem outcome_collectInto_at (h : At done rest lexer) (collector : Segment.Collector) :
    Outcome (fun _ => Onward done rest) (Spoilt done rest)
      (collectInto collector (rest.map some) lexer) := by
  induction rest generalizing done lexer collector with
  | nil =>
    simp only [List.map_nil, collectInto, finish]
    split
    · have hended : Spoilt done [] _ (lexer.skipTo []) := .ended
      simpa [Outcome, fail, h.line] using hended
    · exact .readFailed (by simpa using h.line)
  | cons c rest ih =>
    have hafter : At (done ++ [c]) rest (if c = '\n' then
        { lexer.skipTo (rest.map some) with line := (lexer.skipTo (rest.map some)).line + 1 }
        else lexer.skipTo (rest.map some)) := by
      have hline := h.line
      have hpushed := h.pushed
      split <;> constructor <;> simp_all [skipTo, Source.skipTo, lineAfter_append]
    simp only [List.map_cons, collectInto]
    split
    · rename_i hclose
      cases hfinish : collector.finish with
      | ok octets => exact ⟨[c], rest, rfl, hafter⟩
      | error cause =>
        obtain rfl := Segment.Collector.cause_of_finish hfinish
        subst hclose
        exact .odd [] rest rfl hafter
    · rename_i hclose
      cases hfeed : collector.feed c with
      | ok collector => exact (ih hafter collector).mono (fun _ _ => .cons) fun _ _ => .cons
      | error cause =>
        obtain ⟨rfl, hblank⟩ := Segment.Collector.cause_of_feed hfeed
        exact .character [] rest rfl ⟨hclose, hblank⟩ hafter

/-- A data segment is read up to the delimiter behind it, or up to the character that spoils it. -/
theorem outcome_collect_at (h : At done rest lexer) (alphabet : Segment.Alphabet) :
    Outcome (fun _ => Onward done rest) (Spoilt done rest) (collect alphabet lexer) := by
  unfold collect
  rw [h.ahead]
  exact outcome_collectInto_at h _

/-! ## Sequences of calls -/

/-- A call of the lexer that succeeds. -/
inductive Call : Lexer → Lexer → Prop
  | next {lexer after : Lexer} {found : Option Token} (h : Lexer.next lexer = .ok found after) :
      Call lexer after
  | inner {lexer after : Lexer} {found : Option Token} (h : Lexer.inner lexer = .ok found after) :
      Call lexer after
  | require {lexer after : Lexer} {text : String} {token : Token}
      (h : Lexer.require text lexer = .ok token after) : Call lexer after
  | readChar {lexer after : Lexer} {reading : Reading}
      (h : Lexer.readChar lexer = .ok reading after) : Call lexer after
  | collect {lexer after : Lexer} {alphabet : Segment.Alphabet} {octets : Octets}
      (h : Lexer.collect alphabet lexer = .ok octets after) : Call lexer after

/-- A sequence of calls that succeed leads from one state of the lexer to another. -/
inductive Reaches (start : Lexer) : Lexer → Prop
  | start : Reaches start start
  | call {lexer after : Lexer} (h : Reaches start lexer) (hcall : Call lexer after) :
      Reaches start after

/-- A call of the lexer gives a token. -/
def Obtains (lexer : Lexer) (token : Token) (after : Lexer) : Prop :=
  next lexer = .ok (some token) after ∨ inner lexer = .ok (some token) after ∨
    ∃ text, require text lexer = .ok token after

theorem Obtains.next_eq {token : Token} (h : Obtains lexer token after) :
    next lexer = .ok (some token) after := by
  obtain h | h | ⟨text, h⟩ := h
  · exact h
  · exact next_of_inner h
  · exact next_of_require h

theorem advance_of_next {found : Option Token} (h : At done rest lexer)
    (hnext : next lexer = .ok found after) : Advance done rest found after := by
  have houtcome := outcome_next_at h
  rwa [hnext] at houtcome

theorem onward_of_inner {found : Option Token} (h : At done rest lexer)
    (hinner : inner lexer = .ok found after) : Onward done rest after := by
  have houtcome : Outcome (fun _ => Onward done rest) (fun _ _ => True) (inner lexer) := by
    refine .bind ((outcome_next_at h).mono (fun _ _ => Advance.onward) fun _ _ _ => trivial) ?_
    intro read middle hmiddle
    cases read with
    | none => trivial
    | some token => exact .pure hmiddle
  rwa [hinner] at houtcome

/-- Each call goes on from a place to a later one. -/
theorem onward_of_call (h : At done rest lexer) (hcall : Call lexer after) :
    Onward done rest after := by
  cases hcall with
  | next hnext => exact (advance_of_next h hnext).onward
  | inner hinner => exact onward_of_inner h hinner
  | require hrequire => exact (advance_of_next h (next_of_require hrequire)).onward
  | readChar hread =>
    have houtcome := outcome_readChar_at h
    rwa [hread] at houtcome
  | @collect alphabet _ hcollect =>
    have houtcome := outcome_collect_at h alphabet
    rwa [hcollect] at houtcome

/-- After any sequence of calls the lexer is at a place in the source. -/
theorem onward_of_reaches (h : At done rest lexer) (hreaches : Reaches lexer after) :
    Onward done rest after := by
  induction hreaches with
  | start => exact ⟨[], rest, rfl, by simpa using h⟩
  | call _ hcall ih =>
    obtain ⟨more, rest', rfl, hmiddle⟩ := ih
    obtain ⟨more', rest', rfl, hafter⟩ := onward_of_call hmiddle hcall
    exact ⟨more ++ more', rest', by simp, by simpa using hafter⟩

end ScriptedPng.Lexer
