import ScriptedPng.Proofs.Reading
import ScriptedPng.Proofs.Spelling

/-!
# Lexemes and gaps

A lexeme is what a token is spelled as: a word, a punctuation character, or a string with its
quotes. In front of a lexeme there may be a gap of blanks and comments. The lexer reads over a gap
and takes one lexeme; a word takes the longest possible run of characters, so the character after it
is none of a word.

## Main definitions

* `Lexeme` — the lexemes, with `Lexeme.chars`, `Lexeme.Legal` and `Lexeme.Gives`.
* `Lexer.IsGap`, `Lexer.IsLastGap` — blanks and comments, in front of a lexeme and at the end.
* `Lexer.Resumes` — the lexer is in front of characters, or has gone over blanks among them.

## Main statements

* `Lexer.succeeds_next_lexeme`, `Lexer.succeeds_next_last` — a lexeme behind a gap is read, and
  after the last gap there is none.
* `Lexer.outcome_next` — only a lexeme behind a gap, or the last gap, is read without a failure.
-/

namespace ScriptedPng

open Text

/-- The text of a token, and whether it is quoted. -/
def Token.content (token : Token) : String × Bool :=
  (token.text, token.quoted)

/-- What a token is spelled as. -/
inductive Lexeme where
  | word (first : Char) (body : List Char)
  | mark (c : Char)
  | string (quote : Char) (body : List Char)
deriving DecidableEq, Repr

namespace Lexeme

/-- The first character of the lexeme. -/
def first : Lexeme → Char
  | word first _ => first
  | mark c => c
  | string quote _ => quote

/-- The other characters of the lexeme. -/
def more : Lexeme → List Char
  | word _ body => body
  | mark _ => []
  | string quote body => body ++ [quote]

/-- The characters of the lexeme. -/
def chars (lexeme : Lexeme) : List Char :=
  lexeme.first :: lexeme.more

/-- The text of the token. -/
def text : Lexeme → String
  | word first body => String.ofList (first :: body)
  | mark c => String.singleton c
  | string _ body => String.ofList body

/-- Whether the token is quoted. -/
def quoted : Lexeme → Bool
  | string .. => true
  | _ => false

/-- The lexeme follows the rules: words and strings have a length in bounds and the characters
allowed in them, and a mark is neither a quote nor the start of a comment. -/
def Legal : Lexeme → Prop
  | word first body => Lexer.IsWord first body
  | mark c => Lexer.IsMark c
  | string quote body => Token.isQuote quote = true ∧ body.length ≤ Token.lengthLimit ∧
      ∀ c ∈ body, c ≠ quote ∧ c ≠ '\n'

/-- The lexeme ends in front of the characters: a word does not go on with them. -/
def Ends (rest : List Char) : Lexeme → Prop
  | word .. => ∀ c ∈ rest.head?, Token.isWordChar c = false
  | _ => True

instance : (lexeme : Lexeme) → Decidable lexeme.Legal
  | word first body => inferInstanceAs (Decidable (Lexer.IsWord first body))
  | mark c => inferInstanceAs (Decidable (Lexer.IsMark c))
  | string quote body =>
    letI : Decidable (∀ c ∈ body, c ≠ quote ∧ c ≠ '\n') := List.decidableBAll _ body
    inferInstanceAs (Decidable (_ ∧ _ ∧ ∀ c ∈ body, c ≠ quote ∧ c ≠ '\n'))

instance (rest : List Char) : (lexeme : Lexeme) → Decidable (lexeme.Ends rest)
  | word .. =>
    show Decidable (∀ c ∈ rest.head?, Token.isWordChar c = false) from Option.decidableForallMem _
  | mark _ | string .. => inferInstanceAs (Decidable True)

/-- The token is what the lexeme spells. -/
def Gives (lexeme : Lexeme) (token : Token) : Prop :=
  token.text = lexeme.text ∧ token.quoted = lexeme.quoted

end Lexeme

namespace Lexer

variable {chars gap rest : List Char} {lexer : Lexer} {c : Char}

/-! ## Gaps -/

/-- The characters are blanks and comments; each comment has the newline that ends it. -/
inductive IsGap : List Char → Prop
  | nil : IsGap []
  | blank {c : Char} {chars : List Char} (hblank : isBlank c = true) (h : IsGap chars) :
      IsGap (c :: chars)
  | comment {body chars : List Char} (hbody : '\n' ∉ body) (h : IsGap chars) :
      IsGap (Token.commentMark :: (body ++ '\n' :: chars))

/-- The characters are blanks and comments, up to the end of the source. The last comment may lack
its newline. -/
inductive IsLastGap : List Char → Prop
  | closed {gap : List Char} (h : IsGap gap) : IsLastGap gap
  | opened {gap body : List Char} (h : IsGap gap) (hbody : '\n' ∉ body) :
      IsLastGap (gap ++ Token.commentMark :: body)

/-- No gap goes on with the character. -/
structure EndsGap (c : Char) : Prop where
  isBlank_eq : isBlank c = false
  ne_commentMark : c ≠ Token.commentMark

theorem EndsGap.ne_newline (h : EndsGap c) : c ≠ '\n' := by
  rintro rfl
  cases h.isBlank_eq

theorem IsGap.append {more : List Char} (h : IsGap gap) (hmore : IsGap more) :
    IsGap (gap ++ more) := by
  induction h with
  | nil => exact hmore
  | blank hblank _ ih => exact .blank hblank ih
  | comment hbody _ ih => simpa using IsGap.comment hbody ih

theorem isGap_of_blanks (h : ∀ c ∈ chars, isBlank c = true) : IsGap chars := by
  induction chars with
  | nil => exact .nil
  | cons c chars ih => grind [IsGap]

theorem IsLastGap.append (h : IsGap gap) (hlast : IsLastGap chars) : IsLastGap (gap ++ chars) := by
  cases hlast with
  | closed hgap => exact .closed (h.append hgap)
  | @opened more body hgap hbody =>
    rw [← List.append_assoc]
    exact .opened (h.append hgap) hbody

/-- The lines counted so far do not matter for where a gap ends. -/
theorem skipGap_line (inComment : Bool) (line line' : Nat) (readings : List Reading) :
    (skipGap inComment line readings).2 = (skipGap inComment line' readings).2 := by
  fun_induction skipGap inComment line readings generalizing line' <;> grind [skipGap]

theorem skipGap_blank (hblank : isBlank c = true) (line : Nat) (readings : List Reading) :
    (skipGap false line (some c :: readings)).2 = (skipGap false line readings).2 := by
  have hmark : c ≠ Token.commentMark := by
    rintro rfl
    cases hblank
  by_cases hnewline : c = '\n'
  · subst hnewline
    exact skipGap_line false (line + 1) line readings
  · simp [skipGap, hmark, hblank]

theorem skipGap_commentMark (line : Nat) (readings : List Reading) :
    skipGap false line (some Token.commentMark :: readings) = skipGap true line readings := rfl

theorem skipGap_body {body : List Char} (hbody : '\n' ∉ body) (line : Nat)
    (readings : List Reading) :
    skipGap true line (body.map some ++ readings) = skipGap true line readings := by
  induction body with
  | nil => rfl
  | cons c body ih => grind [skipGap]

theorem skipGap_comment {body : List Char} (hbody : '\n' ∉ body) (line : Nat)
    (readings : List Reading) :
    (skipGap false line (some Token.commentMark :: (body.map some ++ some '\n' :: readings))).2 =
      (skipGap false line readings).2 := by
  rw [skipGap_commentMark, skipGap_body hbody]
  exact skipGap_line false (line + 1) line readings

/-- A gap is read over. -/
theorem skipGap_gap (h : IsGap gap) (line : Nat) (rest : List Char) :
    (skipGap false line ((gap ++ rest).map some)).2 = (skipGap false line (rest.map some)).2 := by
  induction h with
  | nil => rfl
  | blank hblank _ ih => exact (skipGap_blank hblank line _).trans ih
  | comment hbody _ ih =>
    rw [← ih]
    simpa using skipGap_comment hbody line _

theorem skipGap_visible (h : EndsGap c) (line : Nat) (readings : List Reading) :
    (skipGap false line (some c :: readings)).2 = some c :: readings := by
  simp [skipGap, h.ne_newline, h.ne_commentMark, h.isBlank_eq]

theorem skipGap_last (h : IsLastGap gap) (line : Nat) :
    (skipGap false line (gap.map some)).2 = [] := by
  cases h with
  | closed hgap => simpa [skipGap] using skipGap_gap hgap line []
  | @opened gap body hgap hbody =>
    rw [skipGap_gap hgap, List.map_cons, skipGap_commentMark]
    have := skipGap_body hbody line []
    simp only [List.append_nil] at this
    rw [this]
    rfl

/-- Characters are a gap up to a character that ends it, or up to the end. -/
theorem exists_gap (chars : List Char) : IsLastGap chars ∨
    ∃ gap c rest, chars = gap ++ c :: rest ∧ IsGap gap ∧ EndsGap c := by
  generalize hlength : chars.length = n
  induction n using Nat.strongRecOn generalizing chars with
  | ind n ih =>
    -- A gap in front may be added to what is known of the rest.
    have hafter {front more : List Char} (hfront : IsGap front) (hne : front ≠ [])
        (hchars : chars = front ++ more) : IsLastGap chars ∨
          ∃ gap c rest, chars = gap ++ c :: rest ∧ IsGap gap ∧ EndsGap c := by
      have hpos := List.length_pos_iff.2 hne
      have hless : more.length < n := by
        rw [← hlength, hchars, List.length_append]
        omega
      rcases ih _ hless more rfl with hlast | ⟨gap, c, rest, rfl, hgap, hc⟩
      · exact .inl (hchars ▸ hlast.append hfront)
      · exact .inr ⟨front ++ gap, c, rest, by simp [hchars], hfront.append hgap, hc⟩
    cases chars with
    | nil => exact .inl (.closed .nil)
    | cons c rest =>
      by_cases hmark : c = Token.commentMark
      · subst hmark
        by_cases hnewline : '\n' ∈ rest
        · obtain ⟨body, more, rfl, hbody⟩ := List.eq_append_cons_of_mem hnewline
          have hsplit : Token.commentMark :: (body ++ '\n' :: more) =
              Token.commentMark :: (body ++ ['\n']) ++ more := by simp
          exact hafter (.comment hbody .nil) (List.cons_ne_nil _ _) hsplit
        · exact .inl (.opened .nil hnewline)
      · by_cases hblank : isBlank c = true
        · exact hafter (.blank hblank .nil) (List.cons_ne_nil _ _) rfl
        · exact .inr ⟨[], c, rest, rfl, .nil, ⟨by simpa using hblank, hmark⟩⟩

/-! ## Where the lexer stands -/

/-- The characters come next, except that blanks in front of them may be gone. -/
structure Resumes (chars : List Char) (lexer : Lexer) : Prop where
  ahead : ∃ gone rest, chars = gone ++ rest ∧ (∀ c ∈ gone, isBlank c = true) ∧
    lexer.source.ahead = rest.map some
  pushed : lexer.pushed = false

theorem resumes_of_ahead (hahead : lexer.source.ahead = chars.map some)
    (hpushed : lexer.pushed = false) : Resumes chars lexer :=
  ⟨⟨[], chars, rfl, by simp, hahead⟩, hpushed⟩

theorem resumes_after_blank (hblank : isBlank c = true)
    (hahead : lexer.source.ahead = rest.map some) (hpushed : lexer.pushed = false) :
    Resumes (c :: rest) lexer :=
  ⟨⟨[c], rest, rfl, by simpa using hblank, hahead⟩, hpushed⟩

/-- Blanks that are gone would have been skipped anyway. -/
theorem Resumes.skipGap_eq (h : Resumes chars lexer) :
    (skipGap false lexer.line lexer.source.ahead).2 = (skipGap false 1 (chars.map some)).2 := by
  obtain ⟨gone, rest, rfl, hgone, hahead⟩ := h.ahead
  rw [hahead, skipGap_gap (isGap_of_blanks hgone)]
  exact skipGap_line false lexer.line 1 _

/-- The lexer reads over the gap in front of a character. -/
theorem Resumes.exists_line (h : Resumes (gap ++ c :: rest) lexer) (hgap : IsGap gap)
    (hc : EndsGap c) :
    ∃ line, skipGap false lexer.line lexer.source.ahead = (line, some c :: rest.map some) := by
  have heq := h.skipGap_eq
  rw [skipGap_gap hgap, List.map_cons, skipGap_visible hc] at heq
  exact ⟨_, Prod.ext rfl heq⟩

theorem Resumes.exists_line_last (h : Resumes gap lexer) (hgap : IsLastGap gap) :
    ∃ line, skipGap false lexer.line lexer.source.ahead = (line, []) := by
  have heq := h.skipGap_eq
  rw [skipGap_last hgap] at heq
  exact ⟨_, Prod.ext rfl heq⟩

/-! ## Runs of characters -/

variable {test : Char → Bool} {body : List Char}

theorem span_append (hbody : ∀ c ∈ body, test c = true) (hrest : ∀ c ∈ rest.head?, test c = false) :
    span test ((body ++ rest).map some) = (body, rest.map some) := by
  induction body with
  | nil => cases rest <;> simp_all [span]
  | cons c body ih => simp_all [span]

theorem exists_span (test : Char → Bool) (chars : List Char) :
    ∃ body rest, chars = body ++ rest ∧ (∀ c ∈ body, test c = true) ∧
      (∀ c ∈ rest.head?, test c = false) ∧
      span test (chars.map some) = (body, rest.map some) := by
  induction chars with
  | nil => exact ⟨[], [], rfl, by simp, by simp, rfl⟩
  | cons c chars ih =>
    obtain ⟨body, rest, rfl, hbody, hrest, hspan⟩ := ih
    by_cases hc : test c = true
    · exact ⟨c :: body, rest, rfl, by simpa using ⟨hc, hbody⟩, hrest, by simp_all [span]⟩
    · exact ⟨[], c :: (body ++ rest), rfl, by simp, by simpa using hc, by simp_all [span]⟩

/-! ## Lexemes -/

/-- The diagnostic is one of the lexer. -/
def IsLexical (diagnostic : Diagnostic) : Prop :=
  diagnostic.cause.category = .lexical

/-- A word of which the first character has been read ends where its characters end. It may be too
long, or reading fails behind it. -/
theorem outcome_readWord {first : Char} (hpushed : lexer.pushed = false)
    (hbody : ∀ c ∈ body, Token.isWordChar c = true)
    (hends : ∀ c ∈ rest.head?, Token.isWordChar c = false) :
    Outcome (fun found after => body.length < Token.lengthLimit ∧
        found = some ⟨String.ofList (first :: body), lexer.line, false⟩ ∧ Resumes rest after ∧
        after.source.fault = lexer.source.fault)
      (fun diagnostic _ => IsLexical diagnostic ∧
        ¬ (body.length < Token.lengthLimit ∧ lexer.source.fault = none))
      (readWord first ((body ++ rest).map some) lexer) := by
  simp only [readWord, span_append hbody hends]
  by_cases hlong : Token.lengthLimit ≤ body.length
  · rw [if_pos hlong]
    exact ⟨rfl, fun h => absurd h.1 (Nat.not_lt.2 hlong)⟩
  · rw [if_neg hlong]
    have hlength : body.length < Token.lengthLimit := Nat.not_le.1 hlong
    cases rest with
    | nil =>
      simp only [List.map_nil, finish, skipTo, Source.skipTo]
      cases hfault : lexer.source.fault with
      | none => exact ⟨hlength, rfl, resumes_of_ahead rfl hpushed, rfl⟩
      | some reason => exact ⟨rfl, by simp⟩
    | cons c rest =>
      by_cases hnewline : c = '\n'
      · subst hnewline
        exact ⟨hlength, rfl, resumes_after_blank isBlank_newline rfl hpushed, rfl⟩
      · simp only [List.map_cons, if_neg hnewline]
        by_cases hblank : isBlank c = true
        · rw [if_pos hblank]
          exact ⟨hlength, rfl, resumes_after_blank hblank rfl hpushed, rfl⟩
        · rw [if_neg hblank]
          exact ⟨hlength, rfl, resumes_of_ahead rfl hpushed, rfl⟩

/-- A string of which the first quote has been read ends at the same quote. -/
theorem outcome_readString {quote : Char} (hpushed : lexer.pushed = false)
    (hbody : ∀ c ∈ body, (c ≠ quote && c ≠ '\n') = true)
    (hends : ∀ c ∈ rest.head?, (c ≠ quote && c ≠ '\n') = false) :
    Outcome (fun found after => ∃ more, body.length ≤ Token.lengthLimit ∧ rest = quote :: more ∧
        found = some ⟨String.ofList body, lexer.line, true⟩ ∧ Resumes more after ∧
        after.source.fault = lexer.source.fault)
      (fun diagnostic _ => IsLexical diagnostic ∧
        ¬ (body.length ≤ Token.lengthLimit ∧ ∃ more, rest = quote :: more))
      (readString quote ((body ++ rest).map some) lexer) := by
  simp only [readString, span_append hbody hends]
  by_cases hlong : Token.lengthLimit < body.length
  · rw [if_pos hlong]
    exact ⟨rfl, fun h => absurd h.1 (Nat.not_le.2 hlong)⟩
  · rw [if_neg hlong]
    cases rest with
    | nil =>
      simp only [List.map_nil, finish]
      split <;> exact ⟨rfl, by simp⟩
    | cons c rest =>
      by_cases hquote : c = quote
      · subst hquote
        simp only [List.map_cons, if_true]
        exact ⟨rest, Nat.not_lt.1 hlong, rfl, rfl, resumes_of_ahead rfl hpushed, rfl⟩
      · simp only [List.map_cons, if_neg hquote]
        exact ⟨rfl, by simp [hquote]⟩

theorem isQuote_eq_false (h : isPunctuation c = false) : Token.isQuote c = false := by
  apply Bool.eq_false_iff.2
  intro hquote
  simp only [Token.isQuote, Bool.or_eq_true, decide_eq_true_eq] at hquote
  rcases hquote with rfl | rfl <;> cases h

theorem endsGap_of_isQuote (h : Token.isQuote c = true) : EndsGap c := by
  simp only [Token.isQuote, Bool.or_eq_true, decide_eq_true_eq] at h
  rcases h with rfl | rfl <;> exact ⟨rfl, by decide⟩

/-- Every lexeme ends the gap in front of it. -/
theorem endsGap_first {lexeme : Lexeme} (h : lexeme.Legal) : EndsGap lexeme.first := by
  cases lexeme with
  | word first body =>
    refine ⟨h.isBlank_eq, ?_⟩
    rintro rfl
    cases h.isPunctuation_eq
  | mark c => exact ⟨IsMark.isBlank_eq h, IsMark.ne_commentMark h⟩
  | string quote body => exact endsGap_of_isQuote h.1

theorem next_eq_scan (h : lexer.pushed = false) : next lexer = scan lexer := by
  simp [next, h]

/-- What comes behind a gap tells by its first character what kind of lexeme it is. -/
theorem scan_eq {line : Nat} {readings : List Reading}
    (h : skipGap false lexer.line lexer.source.ahead = (line, some c :: readings)) :
    scan lexer =
      if Token.isQuote c then readString c readings { lexer with line }
      else if isPunctuation c then
        .ok (some ⟨String.singleton c, line, false⟩)
          { lexer.skipTo readings with line, token := some ⟨String.singleton c, line, false⟩ }
      else readWord c readings { lexer with line } := by
  simp only [scan, h]
  rfl

/-- A lexeme behind a gap is read, and nothing beyond it but a blank after a word. -/
theorem succeeds_next_lexeme {lexeme : Lexeme} (h : Resumes (gap ++ (lexeme.chars ++ rest)) lexer)
    (hgap : IsGap gap) (hlegal : lexeme.Legal) (hends : lexeme.Ends rest)
    (hfault : lexer.source.fault = none) :
    Succeeds (fun found after => (∃ token, found = some token ∧ lexeme.Gives token) ∧
        Resumes rest after ∧ after.source.fault = none) (next lexer) := by
  rw [next_eq_scan h.pushed]
  have hfirst := endsGap_first hlegal
  cases lexeme with
  | word first body =>
    have hword : IsWord first body := hlegal
    change Resumes (gap ++ first :: (body ++ rest)) lexer at h
    obtain ⟨line, hline⟩ := h.exists_line hgap hfirst
    rw [scan_eq hline, if_neg (by simp [isQuote_eq_false hword.isPunctuation_eq]),
      if_neg (by simp [hword.isPunctuation_eq])]
    have hpushed : ({ lexer with line } : Lexer).pushed = false := h.pushed
    refine (outcome_readWord hpushed hword.isWordChar_eq hends).mono ?_ ?_
    · rintro _ after ⟨-, rfl, hafter, heq⟩
      exact ⟨⟨_, rfl, rfl, rfl⟩, hafter, heq.trans hfault⟩
    · rintro _ _ ⟨-, hnot⟩
      exact hnot ⟨hword.length_lt, hfault⟩
  | mark c =>
    have hmark : IsMark c := hlegal
    change Resumes (gap ++ c :: rest) lexer at h
    obtain ⟨line, hline⟩ := h.exists_line hgap hfirst
    rw [scan_eq hline, if_neg (by simp [hmark.isQuote_eq]), if_pos hmark.isPunctuation_eq]
    exact ⟨⟨_, rfl, rfl, rfl⟩, resumes_of_ahead rfl h.pushed, hfault⟩
  | string quote body =>
    obtain ⟨hquote, hlength, hbody⟩ := hlegal
    change Resumes (gap ++ quote :: (body ++ [quote] ++ rest)) lexer at h
    rw [List.append_assoc] at h
    obtain ⟨line, hline⟩ := h.exists_line hgap hfirst
    rw [scan_eq hline, if_pos hquote]
    have hpushed : ({ lexer with line } : Lexer).pushed = false := h.pushed
    have hclosed : ∀ c ∈ ([quote] ++ rest).head?, (c ≠ quote && c ≠ '\n') = false := by simp
    refine (outcome_readString hpushed (by simpa using hbody) hclosed).mono ?_ ?_
    · rintro _ after ⟨more, -, heq, rfl, hafter, hsame⟩
      cases heq
      exact ⟨⟨_, rfl, rfl, rfl⟩, hafter, hsame.trans hfault⟩
    · rintro _ _ ⟨-, hnot⟩
      exact hnot ⟨hlength, rest, rfl⟩

/-- After the last gap there is no token. -/
theorem succeeds_next_last (h : Resumes gap lexer) (hgap : IsLastGap gap)
    (hfault : lexer.source.fault = none) :
    Succeeds (fun found after => found = none ∧ Resumes [] after ∧ after.source.fault = none)
      (next lexer) := by
  obtain ⟨line, hline⟩ := h.exists_line_last hgap
  rw [next_eq_scan h.pushed]
  simp only [scan, hline, finish, skipTo, Source.skipTo, hfault]
  exact ⟨rfl, resumes_of_ahead rfl h.pushed, rfl⟩

/-- Whatever comes next: a token is read from a lexeme behind a gap, none is found after the last
gap, and everything else is told by a diagnostic of the lexer. -/
theorem outcome_next (h : Resumes chars lexer) :
    Outcome (fun found after => after.source.fault = lexer.source.fault ∧
        (found = none ∧ IsLastGap chars ∧ Resumes [] after ∧ lexer.source.fault = none ∨
        ∃ (token : Token) (gap : List Char) (lexeme : Lexeme) (rest : List Char),
          found = some token ∧ chars = gap ++ (lexeme.chars ++ rest) ∧ IsGap gap ∧
          lexeme.Legal ∧ lexeme.Ends rest ∧ lexeme.Gives token ∧ Resumes rest after))
      (fun diagnostic _ => IsLexical diagnostic) (next lexer) := by
  rw [next_eq_scan h.pushed]
  rcases exists_gap chars with hlast | ⟨gap, c, rest, rfl, hgap, hc⟩
  · obtain ⟨line, hline⟩ := h.exists_line_last hlast
    simp only [scan, hline, finish, skipTo, Source.skipTo]
    cases hfault : lexer.source.fault with
    | none => exact ⟨rfl, .inl ⟨rfl, hlast, resumes_of_ahead rfl h.pushed, rfl⟩⟩
    | some reason => exact rfl
  · obtain ⟨line, hline⟩ := h.exists_line hgap hc
    have hpushed : ({ lexer with line } : Lexer).pushed = false := h.pushed
    rw [scan_eq hline]
    by_cases hquote : Token.isQuote c = true
    · rw [if_pos hquote]
      obtain ⟨body, tail, rfl, hbody, hends, -⟩ := exists_span (fun d => d ≠ c && d ≠ '\n') rest
      refine (outcome_readString hpushed hbody hends).mono ?_ fun _ _ h => h.1
      rintro _ after ⟨more, hlength, rfl, rfl, hafter, heq⟩
      exact ⟨heq, .inr ⟨_, gap, .string c body, more, rfl,
        by simp [Lexeme.chars, Lexeme.first, Lexeme.more], hgap,
        ⟨hquote, hlength, by simpa using hbody⟩, trivial, ⟨rfl, rfl⟩, hafter⟩⟩
    · rw [if_neg hquote]
      by_cases hpunctuation : isPunctuation c = true
      · rw [if_pos hpunctuation]
        exact ⟨rfl, .inr ⟨_, gap, .mark c, rest, rfl, rfl, hgap,
          ⟨hpunctuation, by simpa using hquote, hc.ne_commentMark⟩, trivial, ⟨rfl, rfl⟩,
          resumes_of_ahead rfl h.pushed⟩⟩
      · rw [if_neg hpunctuation]
        obtain ⟨body, tail, rfl, hbody, hends, -⟩ := exists_span Token.isWordChar rest
        refine (outcome_readWord hpushed hbody hends).mono ?_ fun _ _ h => h.1
        rintro _ after ⟨hlength, rfl, hafter, heq⟩
        exact ⟨heq, .inr ⟨_, gap, .word c body, tail, rfl, rfl, hgap,
          ⟨hc.isBlank_eq, by simpa using hpunctuation, hbody, hlength⟩, hends, ⟨rfl, rfl⟩,
          hafter⟩⟩

end Lexer

end ScriptedPng
