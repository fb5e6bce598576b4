import Mathlib.Data.List.Chain
import ScriptedPng.Proofs.Lexer.Lexeme

/-!
# The grammar of the lexer

A text is taken apart into lexemes, each one behind a gap, and a gap at the end. There is at most
one way to do so, and the lexer finds it: reading token by token up to the end of the source gives
the tokens of the lexemes, and fails if the text cannot be taken apart.

## Main definitions

* `Layout` — lexemes and gaps, with `Layout.chars`, `Layout.contents` and `Layout.Legal`.
* `Lexer.tokens` — all tokens up to the end of the source.

## Main statements

* `Layout.eq_of_chars_eq` — a text is taken apart in one way only.
* `Lexer.succeeds_tokens`, `Lexer.outcome_tokens` — the tokens of a text are those of its lexemes.
* `Lexer.tokens_grammar` — the texts that the lexer accepts, and what it gives.
-/

namespace ScriptedPng

open Text Lexer

namespace Lexeme

/-- The text of the token, and whether it is quoted. -/
def content (lexeme : Lexeme) : String × Bool :=
  (lexeme.text, lexeme.quoted)

/-- Without a gap between them, the second lexeme would be taken for a part of the first one, which
is a word: it is a word as well, or a dot. -/
def Joins : Lexeme → Lexeme → Prop
  | word .., word .. => True
  | word .., mark c => c = '.'
  | _, _ => False

theorem Gives.content_eq {lexeme : Lexeme} {token : Token} (h : lexeme.Gives token) :
    token.content = lexeme.content :=
  Prod.ext h.1 h.2

end Lexeme

/-- A text taken apart: lexemes, each one with the gap in front of it, and the gap at the end. -/
structure Layout where
  items : List (List Char × Lexeme)
  last : List Char

namespace Layout

variable {items items' : List (List Char × Lexeme)} {rest rest' gap : List Char} {lexeme : Lexeme}

/-- The characters of lexemes and gaps, and others after them. -/
def joined : List (List Char × Lexeme) → List Char → List Char
  | [], rest => rest
  | (gap, lexeme) :: items, rest => gap ++ (lexeme.chars ++ joined items rest)

/-- The characters of the text. -/
def chars (layout : Layout) : List Char :=
  joined layout.items layout.last

/-- What the tokens of the text are. -/
def contents (layout : Layout) : List (String × Bool) :=
  layout.items.map fun item => item.2.content

/-- The lexemes and gaps follow the rules, and a gap keeps lexemes apart that would be joined. -/
structure Legal (layout : Layout) : Prop where
  gap : ∀ item ∈ layout.items, IsGap item.1
  lexeme : ∀ item ∈ layout.items, item.2.Legal
  apart : layout.items.IsChain fun item next => item.2.Joins next.2 → next.1 ≠ []
  last : IsLastGap layout.last

/-! ## Lexemes that end -/

/-- The lexemes and gaps follow the rules, and each lexeme ends in front of what comes next. -/
def Fits : List (List Char × Lexeme) → List Char → Prop
  | [], _ => True
  | (gap, lexeme) :: items, rest =>
    (IsGap gap ∧ lexeme.Legal ∧ lexeme.Ends (joined items rest)) ∧ Fits items rest

theorem joined_append (items items' : List (List Char × Lexeme)) (rest : List Char) :
    joined (items ++ items') rest = joined items (joined items' rest) := by
  induction items with
  | nil => rfl
  | cons item items ih => simp [joined, ih]

theorem fits_append : Fits (items ++ items') rest ↔
    Fits items (joined items' rest) ∧ Fits items' rest := by
  induction items with
  | nil => simp [Fits]
  | cons item items ih => simp [Fits, joined_append, ih, and_assoc]

theorem isWordChar_of_isBlank {c : Char} (h : isBlank c = true) : Token.isWordChar c = false := by
  simp [Token.isWordChar, h]

theorem isWordChar_commentMark : Token.isWordChar Token.commentMark = false := by decide

/-- No word goes on with a gap. -/
theorem isWordChar_of_isGap {c : Char} {chars : List Char} (h : IsGap (c :: chars)) :
    Token.isWordChar c = false := by
  cases h with
  | blank hblank => exact isWordChar_of_isBlank hblank
  | comment => exact isWordChar_commentMark

theorem ends_last (h : IsLastGap gap) (lexeme : Lexeme) : lexeme.Ends gap := by
  have hhead : ∀ c ∈ gap.head?, Token.isWordChar c = false := by
    cases h with
    | closed hgap => cases hgap <;> grind [isWordChar_of_isGap, IsGap]
    | opened hgap hbody => cases hgap <;> grind [isWordChar_of_isBlank, isWordChar_commentMark]
  cases lexeme with
  | word => exact hhead
  | mark | string => trivial

/-- A word is joined to a lexeme that goes on with a character of a word. -/
theorem joins_iff {first : Char} {body : List Char} (h : lexeme.Legal) :
    (Lexeme.word first body).Joins lexeme ↔ Token.isWordChar lexeme.first = true := by
  cases lexeme with
  | word first body =>
    have hword : IsWord first body := h
    simp [Lexeme.Joins, Lexeme.first, Token.isWordChar, hword.isBlank_eq, hword.isPunctuation_eq]
  | mark c =>
    have hmark : IsMark c := h
    simp only [Lexeme.Joins, Lexeme.first, Token.isWordChar, hmark.isBlank_eq,
      hmark.isPunctuation_eq, Bool.not_false, Bool.not_true, Bool.true_and, Bool.false_or]
    exact ⟨decide_eq_true, of_decide_eq_true⟩
  | string quote body =>
    have hquote := h.1
    simp only [Token.isQuote, Bool.or_eq_true, decide_eq_true_eq] at hquote
    rcases hquote with rfl | rfl <;> simp [Lexeme.Joins, Lexeme.first] <;> rfl

/-- A lexeme ends in front of another one if a gap keeps them apart where they would be joined. -/
theorem ends_iff {next : Lexeme} (hgap : IsGap gap) (hnext : next.Legal) :
    lexeme.Ends (gap ++ (next.chars ++ rest)) ↔ (lexeme.Joins next → gap ≠ []) := by
  cases lexeme with
  | word first body =>
    rw [joins_iff hnext]
    cases gap with
    | cons c gap => simp [Lexeme.Ends, isWordChar_of_isGap hgap]
    | nil => simp [Lexeme.Ends, Lexeme.chars]
  | mark c => simp [Lexeme.Ends, Lexeme.Joins]
  | string quote body => simp [Lexeme.Ends, Lexeme.Joins]

theorem fits_iff (hlast : IsLastGap rest) : Fits items rest ↔
    (∀ item ∈ items, IsGap item.1) ∧ (∀ item ∈ items, item.2.Legal) ∧
      items.IsChain fun item next => item.2.Joins next.2 → next.1 ≠ [] := by
  induction items with
  | nil => simp [Fits]
  | cons item items ih =>
    rw [Fits, ih, List.forall_mem_cons, List.forall_mem_cons]
    cases items with
    | nil => simp [joined, ends_last hlast]
    | cons next items =>
      have hends (hgap : IsGap next.1) (hnext : next.2.Legal) :
          item.2.Ends (joined (next :: items) rest) ↔ (item.2.Joins next.2 → next.1 ≠ []) :=
        ends_iff hgap hnext
      rw [List.isChain_cons_cons]
      constructor
      · rintro ⟨⟨hgap, hlegal, hitem⟩, hgaps, hlexemes, hchain⟩
        have hnext := hends (hgaps _ List.mem_cons_self) (hlexemes _ List.mem_cons_self)
        exact ⟨⟨hgap, hgaps⟩, ⟨hlegal, hlexemes⟩, hnext.1 hitem, hchain⟩
      · rintro ⟨⟨hgap, hgaps⟩, ⟨hlegal, hlexemes⟩, hitem, hchain⟩
        have hnext := hends (hgaps _ List.mem_cons_self) (hlexemes _ List.mem_cons_self)
        exact ⟨⟨hgap, hlegal, hnext.2 hitem⟩, hgaps, hlexemes, hchain⟩

/-- The rules in terms of where each lexeme ends. -/
theorem legal_iff (layout : Layout) :
    layout.Legal ↔ Fits layout.items layout.last ∧ IsLastGap layout.last := by
  constructor
  · intro h
    exact ⟨(fits_iff h.last).2 ⟨h.gap, h.lexeme, h.apart⟩, h.last⟩
  · rintro ⟨hfits, hlast⟩
    obtain ⟨hgap, hlexeme, hapart⟩ := (fits_iff hlast).1 hfits
    exact ⟨hgap, hlexeme, hapart, hlast⟩

/-! ## One way only -/

/-- Where a gap ends does not depend on how the text is taken apart. -/
theorem gap_unique {gap gap' rest rest' : List Char} {c c' : Char} (hgap : IsGap gap)
    (hgap' : IsGap gap') (hc : EndsGap c) (hc' : EndsGap c')
    (h : gap ++ c :: rest = gap' ++ c' :: rest') : gap = gap' ∧ c = c' ∧ rest = rest' := by
  have hskip := skipGap_gap hgap 1 (c :: rest)
  have hskip' := skipGap_gap hgap' 1 (c' :: rest')
  rw [h, hskip', List.map_cons, List.map_cons, skipGap_visible hc, skipGap_visible hc'] at hskip
  obtain ⟨rfl, hrest⟩ : c' = c ∧ rest'.map some = rest.map some := by simpa using hskip
  obtain rfl := (List.map_inj_right fun _ _ => Option.some.inj).1 hrest
  exact ⟨List.append_cancel_right h, rfl, rfl⟩

theorem not_isLastGap {c : Char} (hgap : IsGap gap) (hc : EndsGap c) :
    ¬ IsLastGap (gap ++ c :: rest) := by
  intro h
  have hskip := skipGap_last h 1
  rw [skipGap_gap hgap, List.map_cons, skipGap_visible hc] at hskip
  cases hskip

/-- Where a run of characters ends does not depend on how the text is taken apart. -/
theorem run_unique {test : Char → Bool} {body body' rest rest' : List Char}
    (hbody : ∀ c ∈ body, test c = true) (hbody' : ∀ c ∈ body', test c = true)
    (hrest : ∀ c ∈ rest.head?, test c = false) (hrest' : ∀ c ∈ rest'.head?, test c = false)
    (h : body ++ rest = body' ++ rest') : body = body' ∧ rest = rest' := by
  have hspan := span_append hbody hrest
  rw [h, span_append hbody' hrest'] at hspan
  obtain ⟨rfl, -⟩ := Prod.mk.inj hspan
  exact ⟨rfl, List.append_cancel_left h⟩

/-- The first character tells strings from other lexemes. -/
theorem isQuote_first {lexeme : Lexeme} (h : lexeme.Legal) :
    Token.isQuote lexeme.first = lexeme.quoted := by
  cases lexeme with
  | word => exact isQuote_eq_false (IsWord.isPunctuation_eq h)
  | mark => exact IsMark.isQuote_eq h
  | string => exact h.1

/-- Where a lexeme ends does not depend on how the text is taken apart. -/
theorem lexeme_unique {lexeme lexeme' : Lexeme} (hlegal : lexeme.Legal) (hlegal' : lexeme'.Legal)
    (hends : lexeme.Ends rest) (hends' : lexeme'.Ends rest')
    (h : lexeme.chars ++ rest = lexeme'.chars ++ rest') : lexeme = lexeme' ∧ rest = rest' := by
  obtain ⟨hfirst, hmore⟩ := List.cons.inj h
  have hquoted : lexeme.quoted = lexeme'.quoted := by
    rw [← isQuote_first hlegal, hfirst, isQuote_first hlegal']
  cases lexeme <;> cases lexeme' <;> cases hfirst <;> try cases hquoted
  case word.word =>
    have hword : IsWord _ _ := hlegal
    have hword' : IsWord _ _ := hlegal'
    obtain ⟨rfl, rfl⟩ := run_unique hword.isWordChar_eq hword'.isWordChar_eq hends hends' hmore
    exact ⟨rfl, rfl⟩
  case word.mark =>
    cases (IsWord.isPunctuation_eq hlegal).symm.trans (IsMark.isPunctuation_eq hlegal')
  case mark.word =>
    cases (IsWord.isPunctuation_eq hlegal').symm.trans (IsMark.isPunctuation_eq hlegal)
  case mark.mark => exact ⟨rfl, hmore⟩
  case string.string quote body body' =>
    simp only [Lexeme.more, List.append_eq, List.append_assoc] at hmore
    have hne {body : List Char} (h : ∀ c ∈ body, c ≠ quote ∧ c ≠ '\n') :
        ∀ c ∈ body, (c ≠ quote : Bool) = true := fun c hc => by simp [h c hc]
    obtain ⟨rfl, hrest⟩ := run_unique (hne hlegal.2.2) (hne hlegal'.2.2) (by simp) (by simp) hmore
    exact ⟨rfl, List.append_cancel_left hrest⟩

/-- Neither lexemes nor gaps depend on how the text is taken apart. -/
theorem eq_of_joined_eq (hfits : Fits items rest) (hlast : IsLastGap rest)
    (hfits' : Fits items' rest') (hlast' : IsLastGap rest')
    (h : joined items rest = joined items' rest') : items = items' ∧ rest = rest' := by
  induction items generalizing items' with
  | nil =>
    cases items' with
    | nil => exact ⟨rfl, h⟩
    | cons item items' =>
      obtain ⟨⟨hgap, hlegal, -⟩, -⟩ := hfits'
      have hrest : rest = item.1 ++ item.2.first :: (item.2.more ++ joined items' rest') := h
      rw [hrest] at hlast
      exact (not_isLastGap hgap (endsGap_first hlegal) hlast).elim
  | cons item items ih =>
    obtain ⟨⟨hgap, hlegal, hends⟩, hfits⟩ := hfits
    cases items' with
    | nil =>
      have hrest : rest' = item.1 ++ item.2.first :: (item.2.more ++ joined items rest) := h.symm
      rw [hrest] at hlast'
      exact (not_isLastGap hgap (endsGap_first hlegal) hlast').elim
    | cons item' items' =>
      obtain ⟨⟨hgap', hlegal', hends'⟩, hfits'⟩ := hfits'
      obtain ⟨hfirst, hchar, hmore⟩ := gap_unique hgap hgap' (endsGap_first hlegal)
        (endsGap_first hlegal') h
      obtain ⟨hlexeme, hrest⟩ := lexeme_unique hlegal hlegal' hends hends'
        (congrArg₂ List.cons hchar hmore)
      obtain ⟨rfl, rfl⟩ := ih hfits hfits' hrest
      exact ⟨congrArg₂ List.cons (Prod.ext hfirst hlexeme) rfl, rfl⟩

/-- A text is taken apart in one way only. -/
theorem eq_of_chars_eq {layout layout' : Layout} (h : layout.Legal) (h' : layout'.Legal)
    (hchars : layout.chars = layout'.chars) : layout = layout' := by
  obtain ⟨hfits, hlast⟩ := layout.legal_iff.1 h
  obtain ⟨hfits', hlast'⟩ := layout'.legal_iff.1 h'
  obtain ⟨hitems, hrest⟩ := eq_of_joined_eq hfits hlast hfits' hlast' hchars
  cases layout
  cases layout'
  exact congrArg₂ Layout.mk hitems hrest

end Layout

/-! ## All tokens -/

namespace Lexer

open Layout

/-- All tokens up to the end of the source. -/
def tokens : LexerM (List Token) :=
  foldEach next (fun found token => pure (found ++ [token])) takes_next (fun _ _ => .pure _) []

variable {chars : List Char} {lexer : Lexer}

/-- The tokens of a text are read. -/
theorem succeeds_tokens {layout : Layout} (hlegal : layout.Legal) (h : Resumes layout.chars lexer)
    (hfault : lexer.source.fault = none) :
    Succeeds (fun found _ => found.map Token.content = layout.contents) (tokens lexer) := by
  obtain ⟨hfits, hlast⟩ := layout.legal_iff.1 hlegal
  -- What has been found, and what is still to come.
  refine Outcome.foldEach
    (fun found state => ∃ items, found.map Token.content ++ items.map (·.2.content) =
      layout.contents ∧ Fits items layout.last ∧ Resumes (joined items layout.last) state ∧
      state.source.fault = none)
    (fun found token state => ∃ items, found.map Token.content ++
      token.content :: items.map (·.2.content) = layout.contents ∧ Fits items layout.last ∧
      Resumes (joined items layout.last) state ∧ state.source.fault = none)
    ⟨layout.items, rfl, hfits, h, hfault⟩ ?_ ?_
  · rintro found state ⟨items, hcontents, hitems, hresumes, hfault⟩
    cases items with
    | nil =>
      refine (succeeds_next_last hresumes hlast hfault).mono_post ?_
      rintro _ after ⟨rfl, -, -⟩
      simpa using hcontents
    | cons item items =>
      obtain ⟨⟨hgap, hitem, hends⟩, hitems⟩ := hitems
      refine (succeeds_next_lexeme hresumes hgap hitem hends hfault).mono_post ?_
      rintro _ after ⟨⟨token, rfl, hgives⟩, hafter, hfault⟩
      exact ⟨items, by rw [hgives.content_eq]; exact hcontents, hitems, hafter, hfault⟩
  · rintro found token state ⟨items, hcontents, hrest⟩
    exact ⟨items, by simpa using hcontents, hrest⟩

/-- Only a text that can be taken apart is read without a failure, and gives the tokens of its
lexemes. -/
theorem outcome_tokens (h : Resumes chars lexer) :
    Outcome (fun found _ => ∃ layout : Layout, layout.Legal ∧ layout.chars = chars ∧
        found.map Token.content = layout.contents)
      (fun diagnostic _ => IsLexical diagnostic) (tokens lexer) := by
  refine Outcome.foldEach
    (fun found state => ∃ items rest, joined items rest = chars ∧ Fits items rest ∧
      found.map Token.content = items.map (·.2.content) ∧ Resumes rest state)
    (fun found token state => ∃ items rest, joined items rest = chars ∧ Fits items rest ∧
      found.map Token.content ++ [token.content] = items.map (·.2.content) ∧ Resumes rest state)
    ⟨[], chars, rfl, trivial, rfl, h⟩ ?_ ?_
  · rintro found state ⟨items, rest, hchars, hfits, hcontents, hresumes⟩
    refine (outcome_next hresumes).mono_post ?_
    rintro _ after ⟨-, ⟨rfl, hlast, -⟩ |
      ⟨token, gap, lexeme, rest, rfl, rfl, hgap, hlegal, hends, hgives, hafter⟩⟩
    · exact ⟨⟨items, rest⟩, (legal_iff _).2 ⟨hfits, hlast⟩, hchars, hcontents⟩
    · refine ⟨items ++ [(gap, lexeme)], rest, ?_, ?_, ?_, hafter⟩
      · rw [joined_append]
        exact hchars
      · exact fits_append.2 ⟨hfits, ⟨hgap, hlegal, hends⟩, trivial⟩
      · simp [hcontents, hgives.content_eq]
  · rintro found token state ⟨items, rest, hchars, hfits, hcontents, hresumes⟩
    exact ⟨items, rest, hchars, hfits, by simpa using hcontents, hresumes⟩

theorem resumes_ofChars (chars : List Char) :
    Resumes chars (.ofSource (.ofChars chars)) :=
  resumes_of_ahead rfl rfl

/-- The lexer accepts just the texts that can be taken apart into lexemes and gaps, which is
possible in one way only, and gives the tokens of the lexemes in their order. For all other texts it
fails with one of its diagnostics. -/
theorem tokens_grammar (chars : List Char) :
    (∀ contents, (∃ found after, tokens (.ofSource (.ofChars chars)) = .ok found after ∧
        found.map Token.content = contents) ↔
      ∃ layout : Layout, layout.Legal ∧ layout.chars = chars ∧ layout.contents = contents) ∧
    (∀ layout layout' : Layout, layout.Legal → layout.chars = chars → layout'.Legal →
      layout'.chars = chars → layout = layout') ∧
    ((¬ ∃ layout : Layout, layout.Legal ∧ layout.chars = chars) →
      ∃ diagnostic after, tokens (.ofSource (.ofChars chars)) = .error diagnostic after ∧
        diagnostic.cause.category = .lexical) := by
  have hread := outcome_tokens (resumes_ofChars chars)
  refine ⟨fun contents => ⟨?_, ?_⟩, ?_, fun hnot => ?_⟩
  · rintro ⟨found, after, hfound, hcontents⟩
    rw [hfound] at hread
    obtain ⟨layout, hlegal, hchars, heq⟩ := hread
    exact ⟨layout, hlegal, hchars, heq.symm.trans hcontents⟩
  · rintro ⟨layout, hlegal, rfl, rfl⟩
    have htokens := succeeds_tokens hlegal (resumes_ofChars layout.chars) rfl
    cases hresult : tokens (.ofSource (.ofChars layout.chars)) with
    | ok found after =>
      rw [hresult] at htokens
      exact ⟨found, after, rfl, htokens⟩
    | error diagnostic after =>
      rw [hresult] at htokens
      exact htokens.elim
  · rintro layout layout' hlegal hchars hlegal' hchars'
    exact eq_of_chars_eq hlegal hlegal' (hchars.trans hchars'.symm)
  · cases hresult : tokens (.ofSource (.ofChars chars)) with
    | ok found after =>
      rw [hresult] at hread
      obtain ⟨layout, hlegal, hchars, -⟩ := hread
      exact absurd ⟨layout, hlegal, hchars⟩ hnot
    | error diagnostic after =>
      rw [hresult] at hread
      exact ⟨diagnostic, after, rfl, hread⟩

end Lexer

end ScriptedPng
