import ScriptedPng.Block.Body
import ScriptedPng.Proofs.Outcome

/-!
# Spelling tokens

A source spells tokens, with blanks in between as it likes; a word has to end somewhere, so a blank
or a punctuation character other than a dot follows. Reading a spelling gives its tokens.

## Main definitions

* `Lexer.Spells` — characters spell the texts of tokens, and others come after them.
* `Lexer.Ahead`, `Lexer.Spelling` — the lexer is in front of characters, and of tokens.

## Main statements

* `Lexer.succeeds_next` — the first of the tokens is read.
* `Lexer.succeeds_next_end` — at the end there is none.
-/

namespace ScriptedPng.Lexer

open Text

/-- A punctuation character that is a token by itself. -/
structure IsMark (c : Char) : Prop where
  isPunctuation_eq : isPunctuation c = true
  isQuote_eq : Token.isQuote c = false
  ne_commentMark : c ≠ Token.commentMark

instance (c : Char) : Decidable (IsMark c) :=
  decidable_of_iff
    (isPunctuation c = true ∧ Token.isQuote c = false ∧ c ≠ Token.commentMark)
    ⟨fun h => ⟨h.1, h.2.1, h.2.2⟩, fun h => ⟨h.1, h.2, h.3⟩⟩

theorem IsMark.isBlank_eq {c : Char} (h : IsMark c) : isBlank c = false := by
  apply Bool.eq_false_iff.2
  intro hblank
  have hpunctuation := isPunctuation_eq_false_of_isBlank hblank
  rw [h.isPunctuation_eq] at hpunctuation
  cases hpunctuation

/-- The characters make one word. -/
structure IsWord (first : Char) (body : List Char) : Prop where
  isBlank_eq : isBlank first = false
  isPunctuation_eq : isPunctuation first = false
  isWordChar_eq : ∀ c ∈ body, Token.isWordChar c = true
  length_lt : body.length < Token.lengthLimit

instance (first : Char) (body : List Char) : Decidable (IsWord first body) :=
  decidable_of_iff
    (isBlank first = false ∧ isPunctuation first = false ∧
      body.all Token.isWordChar = true ∧ body.length < Token.lengthLimit)
    ⟨fun h => ⟨h.1, h.2.1, List.all_eq_true.1 h.2.2.1, h.2.2.2⟩,
      fun h => ⟨h.1, h.2, List.all_eq_true.2 h.3, h.4⟩⟩

/-- The text is that of a mark or a word. -/
def IsText (text : String) : Prop :=
  ∃ first body, text.toList = first :: body ∧ (body = [] ∧ IsMark first ∨ IsWord first body)

/-- The characters spell tokens with the given texts, up to where the rest starts. Each token may
have blanks in front of it, and a word is followed by a character that is none of it. -/
inductive Spells (rest : List Char) : List String → List Char → Prop
  | done : Spells rest [] rest
  | blank {text : String} {texts : List String} {c : Char} {chars : List Char}
      (h : isBlank c = true) (hspells : Spells rest (text :: texts) chars) :
      Spells rest (text :: texts) (c :: chars)
  | mark {texts : List String} {c : Char} {chars : List Char} (h : IsMark c)
      (hspells : Spells rest texts chars) : Spells rest (String.singleton c :: texts) (c :: chars)
  | word {text : String} {texts : List String} {first c : Char} {body chars : List Char}
      (h : IsWord first body) (hend : Token.isWordChar c = false)
      (hspells : Spells rest (text :: texts) (c :: chars)) :
      Spells rest (String.ofList (first :: body) :: text :: texts)
        (first :: (body ++ c :: chars))

/-- The characters come next, nothing is pushed back, and reading does not fail. -/
structure Ahead (chars : List Char) (lexer : Lexer) : Prop where
  ahead : lexer.source.ahead = chars.map some
  fault : lexer.source.fault = none
  pushed : lexer.pushed = false

/-- The lexer gives tokens with the given texts next, and then comes the rest of the source. -/
def Spelling (texts : List String) (rest : List Char) (lexer : Lexer) : Prop :=
  ∃ chars, Spells rest texts chars ∧ Ahead chars lexer

variable {texts : List String} {text : String} {rest : List Char} {lexer : Lexer}

/-- The characters of tokens with the given texts, each one behind a space. -/
def spaced (rest : List Char) : List String → List Char
  | [] => rest
  | text :: texts => ' ' :: (text.toList ++ spaced rest texts)

/-- Such characters spell the tokens, provided that the last one is a mark. -/
theorem spells_spaced {c : Char} (h : ∀ text ∈ texts, IsText text) (hmark : IsMark c) :
    Spells rest (texts ++ [String.singleton c]) (spaced rest (texts ++ [String.singleton c])) := by
  induction texts with
  | nil =>
    have hspells : Spells rest [String.singleton c] (c :: rest) := .mark hmark .done
    simpa [spaced] using hspells.blank (c := ' ') (by decide)
  | cons text texts ih =>
    have hrest := ih fun text hmem => h text (List.mem_cons_of_mem _ hmem)
    obtain ⟨first, body, htext, hfirst⟩ := h text List.mem_cons_self
    have heq : text = String.ofList (first :: body) := by
      rw [← htext, String.ofList_toList]
    obtain ⟨next, others, hnext⟩ : ∃ next others,
        texts ++ [String.singleton c] = next :: others :=
      List.exists_cons_of_ne_nil (by simp)
    rw [List.cons_append, spaced, htext]
    refine .blank (by decide) ?_
    rcases hfirst with ⟨rfl, hfirst⟩ | hfirst
    · rw [heq]
      exact .mark hfirst hrest
    · rw [hnext] at hrest ⊢
      rw [heq]
      exact .word hfirst (by decide) hrest

/-! ## Reading tokens -/

/-- Blanks are skipped up to the next token, which is a mark or a word. -/
theorem skipGap_of_spells {chars : List Char} (h : Spells rest (text :: texts) chars) (line : Nat) :
    ∃ line' first after, skipGap false line (chars.map some) =
        (line', some first :: after.map some) ∧
      (IsMark first ∧ text = String.singleton first ∧ Spells rest texts after ∨
        ∃ body c more, IsWord first body ∧ text = String.ofList (first :: body) ∧
          after = body ++ c :: more ∧ Token.isWordChar c = false ∧ texts ≠ [] ∧
          Spells rest texts (c :: more)) := by
  generalize htexts : text :: texts = all at h
  induction h generalizing line with
  | done => cases htexts
  | @blank _ _ c chars hblank _ ih =>
    have hmark : c ≠ Token.commentMark := by
      rintro rfl
      cases hblank
    by_cases hnewline : c = '\n'
    · subst hnewline
      simpa [skipGap] using ih (line + 1) htexts
    · simpa [skipGap, hnewline, hmark, hblank] using ih line htexts
  | @mark _ c chars hmark hspells _ =>
    cases htexts
    have hblank := hmark.isBlank_eq
    have hnewline : c ≠ '\n' := by
      rintro rfl
      cases hblank
    exact ⟨line, c, chars, by simp [skipGap, hmark.ne_commentMark, hblank],
      .inl ⟨hmark, rfl, hspells⟩⟩
  | @word _ _ first c body chars hword hend hspells _ =>
    cases htexts
    have hnewline : first ≠ '\n' := by
      rintro rfl
      cases hword.isBlank_eq
    have hmark : first ≠ Token.commentMark := by
      rintro rfl
      cases hword.isPunctuation_eq
    exact ⟨line, first, body ++ c :: chars,
      by simp [skipGap, hmark, hword.isBlank_eq],
      .inr ⟨body, c, chars, hword, rfl, rfl, hend, List.cons_ne_nil _ _, hspells⟩⟩

/-- A blank after a word is of no account for the next token. -/
theorem Spells.of_blank {c : Char} {chars : List Char}
    (h : Spells rest (text :: texts) (c :: chars)) (hblank : isBlank c = true) :
    Spells rest (text :: texts) chars := by
  cases h with
  | blank _ hspells => exact hspells
  | mark hmark _ => rw [hmark.isBlank_eq] at hblank; cases hblank
  | word hword _ _ => rw [hword.isBlank_eq] at hblank; cases hblank

theorem span_word {test : Char → Bool} {body : List Char} {c : Char} {more : List Char}
    (hbody : ∀ c ∈ body, test c = true) (hend : test c = false) :
    span test ((body ++ c :: more).map some) = (body, some c :: more.map some) := by
  induction body with
  | nil => simp [span, hend]
  | cons first body ih =>
    have hrest := ih fun c hmem => hbody c (List.mem_cons_of_mem _ hmem)
    have hfirst := hbody first List.mem_cons_self
    simp only [List.cons_append, List.map_cons, span, hfirst, if_true, hrest]

/-- A word is read up to where it ends; if that is a blank, it is gone as well. -/
theorem succeeds_readWord {first c : Char} {body more : List Char} (hword : IsWord first body)
    (hend : Token.isWordChar c = false) (hfault : lexer.source.fault = none)
    (hpushed : lexer.pushed = false) (hspells : Spells rest (text :: texts) (c :: more)) :
    Succeeds (fun found after =>
        (∃ line, found = some ⟨String.ofList (first :: body), line, false⟩) ∧
        Spelling (text :: texts) rest after)
      (readWord first ((body ++ c :: more).map some) lexer) := by
  have hlength := hword.length_lt
  simp only [readWord, span_word hword.isWordChar_eq hend, if_neg (Nat.not_le.2 hlength)]
  by_cases hblank : isBlank c = true
  · have hmore := hspells.of_blank hblank
    by_cases hnewline : c = '\n'
    · rw [if_pos hnewline]
      exact ⟨⟨_, rfl⟩, more, hmore, rfl, hfault, hpushed⟩
    · rw [if_neg hnewline, if_pos hblank]
      exact ⟨⟨_, rfl⟩, more, hmore, rfl, hfault, hpushed⟩
  · have hnewline : c ≠ '\n' := by
      rintro rfl
      exact hblank isBlank_newline
    rw [if_neg hnewline, if_neg hblank]
    exact ⟨⟨_, rfl⟩, c :: more, hspells, rfl, hfault, hpushed⟩

/-- The first of the tokens spelled is read. -/
theorem succeeds_next (h : Spelling (text :: texts) rest lexer) :
    Succeeds (fun found after => (∃ line, found = some ⟨text, line, false⟩) ∧
        Spelling texts rest after) (next lexer) := by
  obtain ⟨chars, hspells, hahead, hfault, hpushed⟩ := h
  obtain ⟨line, first, after, hgap, hcases⟩ := skipGap_of_spells hspells lexer.line
  simp only [next, hpushed, Bool.false_eq_true, if_false, scan, hahead, hgap]
  rcases hcases with ⟨hmark, rfl, hafter⟩ | ⟨body, c, more, hword, rfl, rfl, hend, hne, hafter⟩
  · rw [if_neg (by simp [hmark.isQuote_eq]), if_pos hmark.isPunctuation_eq]
    exact ⟨⟨_, rfl⟩, after, hafter, rfl, hfault, rfl⟩
  · have hquote : Token.isQuote first = false := by
      apply Bool.eq_false_iff.2
      intro hquote
      have hpunctuation := hword.isPunctuation_eq
      simp only [Token.isQuote, Bool.or_eq_true, decide_eq_true_eq] at hquote
      rcases hquote with rfl | rfl <;> cases hpunctuation
    rw [if_neg (by simp [hquote]), if_neg (by simp [hword.isPunctuation_eq])]
    obtain ⟨other, others, rfl⟩ := List.exists_cons_of_ne_nil hne
    exact succeeds_readWord hword hend hfault rfl hafter

theorem skipGap_blanks {chars : List Char} (h : ∀ c ∈ chars, isBlank c = true) (line : Nat) :
    ∃ line', skipGap false line (chars.map some) = (line', []) := by
  induction chars generalizing line with
  | nil => exact ⟨line, rfl⟩
  | cons c chars ih =>
    have hblank := h c List.mem_cons_self
    have hmark : c ≠ Token.commentMark := by
      rintro rfl
      cases hblank
    have hrest := ih fun c hmem => h c (List.mem_cons_of_mem _ hmem)
    by_cases hnewline : c = '\n'
    · subst hnewline
      exact hrest (line + 1)
    · obtain ⟨line', hline⟩ := hrest line
      exact ⟨line', by simp [skipGap, hmark, hblank, hline]⟩

/-- Without a token to come, the rest of the source comes next. -/
theorem ahead_of_spelling (h : Spelling [] rest lexer) : Ahead rest lexer := by
  obtain ⟨chars, hspells, hahead⟩ := h
  cases hspells
  exact hahead

/-- Only blanks are left, so there is no token. -/
theorem succeeds_next_end {chars : List Char} (h : ∀ c ∈ chars, isBlank c = true)
    (hahead : Ahead chars lexer) : Succeeds (fun found _ => found = none) (next lexer) := by
  obtain ⟨line, hline⟩ := skipGap_blanks h lexer.line
  simp only [next, hahead.pushed, Bool.false_eq_true, if_false, scan, hahead.ahead, hline, finish,
    skipTo, Source.skipTo, hahead.fault]
  rfl

end ScriptedPng.Lexer
