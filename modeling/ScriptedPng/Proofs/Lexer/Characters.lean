import ScriptedPng.Proofs.Lexer.Trail

/-!
# The lexer character by character

Tokens can be read with nothing but two operations on the source: one character is read, or the
character that has just been read is put back. A source holds one character that was put back, and
no second one. Read in this way tokens are the same, and so is what is left of the source; the place
for a character that is put back is always free.

## Main definitions

* `Lexer.getc`, `Lexer.ungetc` — the operations on the source.
* `Lexer.seek`, `Lexer.gather` — the loops over a gap, and over a word or a string.
* `Lexer.nextToken`, `Lexer.pushToken`, `Lexer.nextChar` — the calls of the lexer by these means.
* `Lexer.Clear` — characters are to come, of which the first one may have been put back.

## Main statements

* `Lexer.seek_eq`, `Lexer.gather_eq` — what the loops read.
* `Lexer.nextToken_eq`, `Lexer.nextChar_eq` — tokens and characters are the same.
* `Lexer.clear_next`, `Lexer.clear_readChar` — the place for a character remains free.
-/

namespace ScriptedPng.Lexer

open Text Diagnostic

/-- What stops a call. -/
inductive Stop where
  | reported (diagnostic : Diagnostic)
  /-- A character is put back while another one is held. -/
  | occupied
  /-- There is no token to push back. -/
  | noToken

/-- A call that reads characters. -/
abbrev CharM := EStateM Stop Lexer

variable {α : Type}

/-- What a call of the lexer has come to. -/
def told : EStateM.Result Diagnostic Lexer α → EStateM.Result Stop Lexer α
  | .ok value after => .ok value after
  | .error diagnostic after => .error (.reported diagnostic) after

/-- Fails with a cause on the line reached. -/
def report (cause : Cause) : CharM α := fun lexer => told (fail cause lexer)

/-- Reads one character, or finds the end. -/
def getc : CharM Reading := fun lexer =>
  match lexer.source.read with
  | .error reason => .error (.reported ⟨.readFailed reason, none⟩) lexer
  | .ok (reading, source) => .ok reading { lexer with source }

/-- Puts a character back. -/
def ungetc (c : Char) : CharM Unit := fun lexer =>
  match lexer.source.unread (some c) with
  | none => .error .occupied lexer
  | some source => .ok () { lexer with source }

/-- Counts a newline. -/
def countLine : CharM Unit :=
  modify fun lexer => { lexer with line := lexer.line + 1 }

variable {lexer after : Lexer} {c : Char}

theorem getc_cons {reading : Reading} {rest : List Reading}
    (h : lexer.source.ahead = reading :: rest) : getc lexer = .ok reading (lexer.skipTo rest) := by
  simp only [getc, Source.read, h]
  rfl

/-- A character that is read is taken from those to come. -/
theorem length_of_getc {reading : Reading} (h : getc lexer = .ok reading after) :
    after.source.ahead.length + reading.isSome.toNat ≤ lexer.source.ahead.length := by
  cases hahead : lexer.source.ahead with
  | nil =>
    simp only [getc, Source.read, hahead] at h
    cases hfault : lexer.source.fault <;> simp only [hfault] at h <;> cases h
    rw [hahead]
    exact Nat.le_refl _
  | cons found rest =>
    rw [getc_cons hahead] at h
    cases h
    exact Nat.add_le_add_left (Bool.toNat_le _) _

/-- Reads over blanks and comments, up to a character that is none of them, or up to the end. The
argument tells whether a comment has been started. -/
def seek (inComment : Bool) : CharM Reading := fun lexer =>
  match _hc : getc lexer with
  | .error stop after => .error stop after
  | .ok none after => if inComment then seek false after else .ok none after
  | .ok (some c) after =>
    if c = '\n' then seek false { after with line := after.line + 1 }
    else if inComment then seek true after
    else if isBlank c then seek false after
    else if c = Token.commentMark then seek true after
    else .ok (some c) after
termination_by lexer => (lexer.source.ahead.length, inComment.toNat)
decreasing_by
  · exact Prod.Lex.right' _ (length_of_getc _hc) (by simp [*])
  all_goals exact Prod.Lex.left _ _ (length_of_getc _hc)

/-- Reads characters that pass a test, and one more character, or finds the end. The first argument
tells what it means if there are too many. -/
def gather (tooLong : Cause) (test : Char → Bool) (buffer : List Char) :
    CharM (List Char × Reading) := fun lexer =>
  match _hc : getc lexer with
  | .error stop after => .error stop after
  | .ok none after => .ok (buffer, none) after
  | .ok (some c) after =>
    if test c then
      if Token.lengthLimit ≤ buffer.length then report tooLong after
      else gather tooLong test (buffer ++ [c]) after
    else .ok (buffer, some c) after
termination_by lexer => lexer.source.ahead.length
decreasing_by exact length_of_getc _hc

/-- The token that starts with a character. -/
def readToken (first : Char) : CharM (String × Bool) := do
  if Token.isQuote first then
    match ← gather .stringTooLong (fun c => c ≠ first && c ≠ '\n') [] with
    | (_, none) => report .unterminatedString
    | (body, some c) =>
      if c = first then pure (String.ofList body, true) else report .newlineInString
  else if isPunctuation first then pure (String.singleton first, false)
  else
    let (word, ending) ← gather .wordTooLong Token.isWordChar [first]
    match ending with
    | none => pure ()
    | some c => if c = '\n' then countLine else if isBlank c then pure () else ungetc c
    pure (String.ofList word, false)

/-- The next token, or none at the end. A token pushed back comes first. -/
def nextToken : CharM (Option Token) := do
  if (← get).pushed then
    modify fun lexer => { lexer with pushed := false }
    return (← get).token
  else
    match ← seek false with
    | none => return none
    | some first =>
      let line := (← get).line
      let (text, quoted) ← readToken first
      fun lexer => told (deliver text line quoted lexer)

/-- Pushes the last token back. -/
def pushToken : CharM Unit := do
  if (← get).pushed ∨ (← get).token = none then throw .noToken
  else modify fun lexer => { lexer with pushed := true }

/-- The next character, or none at the end. -/
def nextChar : CharM Reading := do
  let reading ← getc
  if reading = some '\n' then countLine
  return reading

/-! ## The loops -/

variable {rest : List Reading} {inComment : Bool}

/-- The readings to come are the characters of a source, and only one of them may be held. -/
structure Clear (lexer : Lexer) : Prop where
  ahead : ∀ reading ∈ lexer.source.ahead, reading ≠ none
  held : lexer.source.held = true → lexer.source.ahead ≠ []

theorem Clear.held_eq_false (h : Clear lexer) (hahead : lexer.source.ahead = []) :
    lexer.source.held = false := by
  cases hheld : lexer.source.held with
  | false => rfl
  | true => exact absurd hahead (h.held hheld)

/-- Behind a reading nothing is held. -/
theorem Clear.skipTo (h : Clear lexer) (hrest : rest <:+ lexer.source.ahead) (line : Nat)
    (token : Option Token) (pushed : Bool) :
    Clear { lexer.skipTo rest with line, token, pushed } where
  ahead reading hmem := h.ahead reading (hrest.mem hmem)
  held hheld := by cases hheld

/-- At the end there are no more characters. -/
theorem getc_nil (h : lexer.source.ahead = []) (hheld : lexer.source.held = false) :
    getc lexer = told (finish (pure none) (lexer.skipTo [])) := by
  obtain ⟨⟨ahead, fault, held⟩, line, token, pushed⟩ := lexer
  subst h hheld
  cases fault <;> rfl

/-- Nothing is found at the end. -/
theorem told_finish_eq_ok {value found : α}
    (h : told (finish (pure value) lexer) = .ok found after) :
    found = value ∧ after = lexer := by
  rw [finish] at h
  split at h <;> cases h
  exact ⟨rfl, rfl⟩

theorem seek_nil (h : lexer.source.ahead = []) (hheld : lexer.source.held = false) :
    seek inComment lexer = told (finish (pure none) (lexer.skipTo [])) := by
  have hgetc := getc_nil h hheld
  -- A comment is left first if the source ends in it.
  have hfalse {lexer : Lexer} (hgetc : getc lexer = told (finish (pure none) (lexer.skipTo []))) :
      seek false lexer = told (finish (pure none) (lexer.skipTo [])) := by
    rw [seek, ← hgetc]
    split <;> rename_i heq
    · exact heq.symm
    · exact heq.symm
    · cases (told_finish_eq_ok (hgetc.symm.trans heq)).1
  cases inComment with
  | false => exact hfalse hgetc
  | true =>
    rw [seek]
    split <;> rename_i heq <;> rw [hgetc] at heq
    · exact heq.symm
    · obtain ⟨-, rfl⟩ := told_finish_eq_ok heq
      exact hfalse (getc_nil rfl rfl)
    · cases (told_finish_eq_ok heq).1

theorem seek_cons (h : lexer.source.ahead = some c :: rest) :
    seek inComment lexer =
      if c = '\n' then seek false { lexer.skipTo rest with line := lexer.line + 1 }
      else if inComment then seek true (lexer.skipTo rest)
      else if isBlank c then seek false (lexer.skipTo rest)
      else if c = Token.commentMark then seek true (lexer.skipTo rest)
      else .ok (some c) (lexer.skipTo rest) := by
  have hgetc := getc_cons h
  rw [seek]
  split <;> rename_i heq <;> rw [hgetc] at heq <;> cases heq
  rfl

theorem skipGap_cons (inComment : Bool) (line : Nat) (c : Char) (rest : List Reading) :
    skipGap inComment line (some c :: rest) =
      if c = '\n' then skipGap false (line + 1) rest
      else if inComment then skipGap true line rest
      else if isBlank c then skipGap false line rest
      else if c = Token.commentMark then skipGap true line rest
      else (line, some c :: rest) := by
  have hmark : isBlank Token.commentMark = false := rfl
  by_cases hnewline : c = '\n'
  · subst hnewline
    cases inComment <;> rfl
  · cases inComment <;> grind [skipGap]

/-- A gap is read over. By induction on the readings, one of which is taken in each round. -/
theorem seek_eq (inComment : Bool) (h : Clear lexer) : seek inComment lexer =
    match skipGap inComment lexer.line lexer.source.ahead with
    | (line, []) => told (finish (pure none) { lexer.skipTo [] with line })
    | (line, reading :: rest) => .ok reading { lexer.skipTo rest with line } := by
  generalize hahead : lexer.source.ahead = readings
  induction readings generalizing lexer inComment with
  | nil =>
    exact seek_nil hahead (h.held_eq_false hahead)
  | cons reading rest ih =>
    obtain ⟨c, rfl⟩ := Option.ne_none_iff_exists'.1 (h.ahead reading (hahead ▸ List.mem_cons_self))
    have hrest (line : Nat) : Clear { lexer.skipTo rest with line } :=
      h.skipTo (hahead ▸ List.suffix_cons _ rest) line lexer.token lexer.pushed
    rw [seek_cons hahead, skipGap_cons]
    by_cases hnewline : c = '\n'
    · simp only [if_pos hnewline]
      exact ih _ (hrest (lexer.line + 1)) rfl
    simp only [if_neg hnewline]
    cases inComment with
    | true => exact ih _ (hrest lexer.line) rfl
    | false =>
      simp only [Bool.false_eq_true, if_false]
      by_cases hblank : isBlank c = true
      · simp only [if_pos hblank]
        exact ih _ (hrest lexer.line) rfl
      simp only [if_neg hblank]
      by_cases hmark : c = Token.commentMark
      · simp only [if_pos hmark]
        exact ih _ (hrest lexer.line) rfl
      · simp only [if_neg hmark]
        rfl

/-- What a round of gathering does with a character. -/
theorem gather_cons {tooLong : Cause} {test : Char → Bool} {buffer : List Char}
    (h : lexer.source.ahead = some c :: rest) : gather tooLong test buffer lexer =
      if test c then
        if Token.lengthLimit ≤ buffer.length then report tooLong (lexer.skipTo rest)
        else gather tooLong test (buffer ++ [c]) (lexer.skipTo rest)
      else .ok (buffer, some c) (lexer.skipTo rest) := by
  have hgetc := getc_cons h
  rw [gather]
  split <;> rename_i heq <;> rw [hgetc] at heq <;> cases heq
  rfl

theorem gather_nil {tooLong : Cause} {test : Char → Bool} {buffer : List Char}
    (h : lexer.source.ahead = []) (hheld : lexer.source.held = false) :
    gather tooLong test buffer lexer =
      told (finish (pure (buffer, none)) (lexer.skipTo [])) := by
  have hgetc := getc_nil h hheld
  rw [gather]
  cases hfault : lexer.source.fault with
  | none | some reason =>
    simp only [finish, skipTo, Source.skipTo, hfault] at hgetc ⊢
    split <;> rename_i heq <;> rw [hgetc] at heq <;> cases heq
    rfl

/-- Characters that pass the test are gathered. By induction on the readings, one of which is taken
in each round. -/
theorem gather_eq (tooLong : Cause) (test : Char → Bool) {buffer : List Char} (h : Clear lexer)
    (hlength : buffer.length ≤ Token.lengthLimit) :
    gather tooLong test buffer lexer =
      match span test lexer.source.ahead with
      | (body, after) =>
        if Token.lengthLimit < buffer.length + body.length then
          report tooLong (lexer.skipTo
            (lexer.source.ahead.drop (Token.lengthLimit + 1 - buffer.length)))
        else
          match after with
          | [] => told (finish (pure (buffer ++ body, none)) (lexer.skipTo []))
          | reading :: after => .ok (buffer ++ body, reading) (lexer.skipTo after) := by
  generalize hahead : lexer.source.ahead = readings
  induction readings generalizing lexer buffer with
  | nil =>
    have hshort : ¬ Token.lengthLimit < buffer.length + ([] : List Char).length :=
      Nat.not_lt.2 hlength
    rw [gather_nil hahead (h.held_eq_false hahead)]
    simp only [span, if_neg hshort, List.append_nil]
  | cons reading rest ih =>
    obtain ⟨c, rfl⟩ := Option.ne_none_iff_exists'.1 (h.ahead reading (hahead ▸ List.mem_cons_self))
    have hrest : Clear (lexer.skipTo rest) :=
      h.skipTo (hahead ▸ List.suffix_cons _ rest) lexer.line lexer.token lexer.pushed
    rw [gather_cons hahead, span]
    by_cases htest : test c = true
    · simp only [if_pos htest, List.length_cons]
      by_cases hfull : Token.lengthLimit ≤ buffer.length
      · have hlong : Token.lengthLimit < buffer.length + ((span test rest).1.length + 1) := by omega
        have hdrop : Token.lengthLimit + 1 - buffer.length = 1 := by omega
        simp only [if_pos hfull, if_pos hlong, hdrop, List.drop_one, List.tail_cons]
      · have hlonger : (buffer ++ [c]).length ≤ Token.lengthLimit := by
          rw [List.length_append, List.length_singleton]
          omega
        have hnext := ih hrest hlonger rfl
        have hdrop : Token.lengthLimit + 1 - buffer.length =
            Token.lengthLimit + 1 - (buffer ++ [c]).length + 1 := by
          rw [List.length_append, List.length_singleton]
          omega
        simp only [if_neg hfull, hnext, hdrop, List.drop_succ_cons, List.length_append,
          List.length_singleton, List.append_assoc, List.singleton_append, Nat.add_assoc,
          Nat.add_comm 1]
        rfl
    · have hshort : ¬ Token.lengthLimit < buffer.length + ([] : List Char).length :=
        Nat.not_lt.2 hlength
      simp only [if_neg htest, if_neg hshort, List.append_nil]

/-! ## Tokens -/

/-- A string is read as it is gathered. -/
theorem readToken_quote {first : Char} (h : Clear lexer) (hquote : Token.isQuote first = true) :
    (do
      let (text, quoted) ← readToken first
      fun after => told (deliver text lexer.line quoted after) : CharM (Option Token)) lexer =
        told (readString first lexer.source.ahead lexer) := by
  have hgather := gather_eq .stringTooLong (fun c => c ≠ first && c ≠ '\n') h
    (show ([] : List Char).length ≤ _ from Nat.zero_le _)
  simp only [readToken, readString, if_pos hquote, bind, EStateM.bind, hgather]
  generalize span _ lexer.source.ahead = run
  obtain ⟨body, after⟩ := run
  simp only [List.length_nil, Nat.zero_add, List.nil_append, Nat.sub_zero]
  by_cases hlong : Token.lengthLimit < body.length
  · simp only [if_pos hlong]
    rfl
  simp only [if_neg hlong]
  cases after with
  | nil =>
    cases hfault : lexer.source.fault <;>
      simp only [finish, skipTo, Source.skipTo, hfault] <;> rfl
  | cons reading after =>
    cases reading with
    | none => rfl
    | some c =>
      by_cases hclose : c = first
      · simp only [if_pos hclose]
        rfl
      · simp only [if_neg hclose]
        rfl

/-- A word is read as it is gathered. The character that ends it is put back where nothing is held,
since it has just been read. -/
theorem readToken_word {first : Char} (h : Clear lexer) (hquote : ¬ Token.isQuote first = true)
    (hmark : ¬ isPunctuation first = true) :
    (do
      let (text, quoted) ← readToken first
      fun after => told (deliver text lexer.line quoted after) : CharM (Option Token)) lexer =
        told (readWord first lexer.source.ahead lexer) := by
  have hfirst : [first].length ≤ Token.lengthLimit := by
    rw [List.length_singleton]
    decide
  have hgather := gather_eq .wordTooLong Token.isWordChar h hfirst
  simp only [readToken, readWord, if_neg hquote, if_neg hmark, bind, EStateM.bind, hgather]
  generalize span _ lexer.source.ahead = run
  obtain ⟨body, after⟩ := run
  have hlength : Token.lengthLimit < 1 + body.length ↔ Token.lengthLimit ≤ body.length := by
    omega
  simp only [List.length_singleton, Nat.add_sub_cancel, hlength]
  by_cases hlong : Token.lengthLimit ≤ body.length
  · simp only [if_pos hlong]
    rfl
  simp only [if_neg hlong]
  cases after with
  | nil =>
    cases hfault : lexer.source.fault <;>
      simp only [finish, skipTo, Source.skipTo, hfault] <;> rfl
  | cons reading after =>
    cases reading with
    | none => rfl
    | some c =>
      by_cases hnewline : c = '\n'
      · simp only [if_pos hnewline]
        rfl
      simp only [if_neg hnewline]
      by_cases hblank : isBlank c = true
      · simp only [if_pos hblank]
        rfl
      · simp only [if_neg hblank]
        rfl

/-- The next token is read. -/
theorem nextToken_eq (h : Clear lexer) : nextToken lexer = told (next lexer) := by
  have hget : (get : CharM Lexer) lexer = .ok lexer lexer := rfl
  unfold nextToken next
  rw [bind_of_ok hget]
  by_cases hpushed : lexer.pushed = true
  · simp only [if_pos hpushed]
    rfl
  simp only [if_neg hpushed]
  have hseek := seek_eq false h
  obtain ⟨line, readings, hgap⟩ : ∃ line readings,
      skipGap false lexer.line lexer.source.ahead = (line, readings) := ⟨_, _, rfl⟩
  rw [hgap] at hseek
  cases readings with
  | nil =>
    simp only [scan, hgap]
    simp only [bind, EStateM.bind, hseek]
    cases hfault : lexer.source.fault <;>
      simp only [finish, skipTo, Source.skipTo, hfault] <;> rfl
  | cons reading rest =>
    have hsuffix := suffix_skipGap false lexer.line lexer.source.ahead
    rw [hgap] at hsuffix
    have hrest : Clear { lexer.skipTo rest with line } :=
      h.skipTo ((List.suffix_cons _ _).trans hsuffix) line lexer.token lexer.pushed
    rw [bind_of_ok hseek]
    cases reading with
    | none =>
      simp only [scan, hgap]
      rfl
    | some c =>
      rw [scan_eq hgap]
      by_cases hquote : Token.isQuote c = true
      · rw [if_pos hquote]
        exact readToken_quote hrest hquote
      rw [if_neg hquote]
      by_cases hmark : isPunctuation c = true
      · have hread : readToken c { lexer.skipTo rest with line } =
            .ok (String.singleton c, false) { lexer.skipTo rest with line } := by
          simp only [readToken, if_neg hquote, if_pos hmark]
          rfl
        rw [if_pos hmark]
        exact bind_of_ok hread
      · rw [if_neg hmark]
        exact readToken_word hrest hquote hmark

/-- The last token is pushed back, if that is possible. -/
theorem pushToken_eq (lexer : Lexer) : pushToken lexer =
    match lexer.push with
    | some after => .ok () after
    | none => .error .noToken lexer := by
  have hget : (get : CharM Lexer) lexer = .ok lexer lexer := rfl
  unfold pushToken push
  rw [bind_of_ok hget, bind_of_ok hget]
  split <;> rfl

/-- The next character is read. -/
theorem nextChar_eq (lexer : Lexer) : nextChar lexer = told (readChar lexer) := by
  simp only [nextChar, readChar, getc, bind, EStateM.bind]
  cases lexer.source.read with
  | error reason => rfl
  | ok found =>
    obtain ⟨reading, source⟩ := found
    by_cases hnewline : reading = some '\n'
    · simp only [if_pos hnewline]
      rfl
    · simp only [if_neg hnewline]
      rfl

/-! ## The place for a character -/

theorem clear_finish {onEnd : LexerM α} (h : Clear lexer)
    (hend : Outcome (fun _ => Clear) (fun _ => Clear) (onEnd lexer)) :
    Outcome (fun _ => Clear) (fun _ => Clear) (finish onEnd lexer) := by
  rw [finish]
  split
  · exact hend
  · exact h

theorem clear_readWord {first : Char} (h : Clear lexer) (hrest : rest <:+ lexer.source.ahead) :
    Outcome (fun _ => Clear) (fun _ => Clear) (readWord first rest lexer) := by
  have hspan := (suffix_span Token.isWordChar rest).trans hrest
  simp only [readWord]
  split
  · exact h.skipTo ((List.drop_suffix _ _).trans hrest) _ _ _
  · split <;> rename_i heq <;> rw [heq] at hspan
    · exact clear_finish (h.skipTo List.nil_suffix _ _ _) (h.skipTo List.nil_suffix _ _ _)
    · exact h.skipTo ((List.suffix_cons _ _).trans hspan) _ _ _
    · have htail := (List.suffix_cons _ _).trans hspan
      split
      · exact h.skipTo htail _ _ _
      · split
        · exact h.skipTo htail _ _ _
        · exact ⟨fun reading hmem => h.ahead reading (hspan.mem hmem),
            fun _ => List.cons_ne_nil _ _⟩

theorem clear_readString {quote : Char} (h : Clear lexer) (hrest : rest <:+ lexer.source.ahead) :
    Outcome (fun _ => Clear) (fun _ => Clear) (readString quote rest lexer) := by
  have hspan := (suffix_span (fun c => c ≠ quote && c ≠ '\n') rest).trans hrest
  simp only [readString]
  split
  · exact h.skipTo ((List.drop_suffix _ _).trans hrest) _ _ _
  · split <;> rename_i heq <;> rw [heq] at hspan
    · exact clear_finish (h.skipTo List.nil_suffix _ _ _) (h.skipTo List.nil_suffix _ _ _)
    · exact h.skipTo ((List.suffix_cons _ _).trans hspan) _ _ _
    · have htail := (List.suffix_cons _ _).trans hspan
      split <;> exact h.skipTo htail _ _ _

theorem clear_next (h : Clear lexer) :
    Outcome (fun _ => Clear) (fun _ => Clear) (next lexer) := by
  unfold next
  split
  · exact ⟨h.ahead, h.held⟩
  have hgap := suffix_skipGap false lexer.line lexer.source.ahead
  simp only [scan]
  split <;> rename_i heq <;> rw [heq] at hgap
  · exact clear_finish (h.skipTo hgap _ _ _) (h.skipTo hgap _ _ _)
  · exact h.skipTo ((List.suffix_cons _ _).trans hgap) _ _ _
  · have htail := (List.suffix_cons _ _).trans hgap
    have hline : Clear { lexer with line := (skipGap false lexer.line lexer.source.ahead).1 } :=
      ⟨h.ahead, h.held⟩
    split
    · exact clear_readString hline htail
    · split
      · exact h.skipTo htail _ _ _
      · exact clear_readWord hline htail

theorem clear_readChar (h : Clear lexer) :
    Outcome (fun _ => Clear) (fun _ => Clear) (readChar lexer) := by
  unfold readChar Source.read
  cases hahead : lexer.source.ahead with
  | nil =>
    cases lexer.source.fault with
    | none => exact ⟨h.ahead, h.held⟩
    | some reason => exact h
  | cons reading rest =>
    exact h.skipTo (hahead ▸ List.suffix_cons reading rest) _ _ _

theorem Clear.push (h : Clear lexer) (hpush : lexer.push = some after) : Clear after := by
  unfold Lexer.push at hpush
  split at hpush
  · cases hpush
  · cases hpush
    exact ⟨h.ahead, h.held⟩

/-- A source that has not been read holds nothing. -/
theorem clear_ofSource (chars : List Char) (fault : Option String) :
    Clear (ofSource { Source.ofChars chars with fault }) where
  ahead reading hmem := by
    obtain ⟨c, -, rfl⟩ := List.mem_map.1 hmem
    exact Option.some_ne_none c
  held hheld := by cases hheld

end ScriptedPng.Lexer
