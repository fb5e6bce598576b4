import ScriptedPng.Proofs.Lexer.Grammar
import ScriptedPng.Proofs.Lexer.Pieces

/-!
# What the lexer has consumed

A token is read with the gap in front of it; nothing behind it is consumed but the one blank that
ends a word. A data segment is consumed up to the delimiter that closes it. So the characters that
have been consumed can be told from the pieces that have been read. Whatever fails, the lexer
remains in front of characters.

## Main definitions

* `Lexer.Front` — the lexer is in front of characters, and nothing is pushed back.
* `Lexer.Consumes` — a lexeme is consumed behind a gap.
* `Lexer.Trail` — pieces are read one after the other.

## Main statements

* `Lexer.plain_next`, `Lexer.plain_collect` — the lexer remains in front of characters.
* `Lexer.outcome_next_front`, `Lexer.outcome_collect_front` — what reading consumes.
* `Lexer.Trail.shows` — the lexer has been in front of the pieces that it has read.
* `Lexer.Trail.exists_items` — what reading several tokens consumes.
-/

namespace ScriptedPng

open Text

/-- What is consumed behind a lexeme: at most one blank if it is a word, and nothing else. -/
def Lexeme.Along (gone : List Char) : Lexeme → Prop
  | word .. => gone.length ≤ 1 ∧ ∀ c ∈ gone, isBlank c = true
  | _ => gone = []

namespace Lexer

variable {chars gap rest gone : List Char} {lexer after : Lexer} {readings : List Reading}

/-- The characters come next, and nothing is pushed back. -/
structure Front (chars : List Char) (lexer : Lexer) : Prop where
  ahead : lexer.source.ahead = chars.map some
  pushed : lexer.pushed = false

theorem Front.unique {chars' : List Char} (h : Front chars lexer) (h' : Front chars' lexer) :
    chars = chars' :=
  (List.map_inj_right fun _ _ => Option.some.inj).1 (h.ahead.symm.trans h'.ahead)

theorem Front.resumes (h : Front chars lexer) : Resumes chars lexer :=
  resumes_of_ahead h.ahead h.pushed

theorem Front.plain (h : Front chars lexer) : Plain lexer :=
  ⟨chars, h.resumes⟩

theorem Plain.exists_front (h : Plain lexer) : ∃ chars, Front chars lexer := by
  obtain ⟨_, ⟨_, rest, -, -, hahead⟩, hpushed⟩ := h
  exact ⟨rest, hahead, hpushed⟩

/-! ## Whatever becomes of reading -/

/-- Only readings from the end of the given ones are to come, and nothing is pushed back. -/
structure Within (readings : List Reading) (lexer : Lexer) : Prop where
  suffix : lexer.source.ahead <:+ readings
  pushed : lexer.pushed = false

theorem Within.plain (h : Within (chars.map some) lexer) : Plain lexer := by
  obtain ⟨front, hfront⟩ := h.suffix
  obtain ⟨_, rest, -, -, hrest⟩ := List.map_eq_append_iff.1 hfront.symm
  exact Front.plain ⟨hrest.symm, h.pushed⟩

theorem suffix_skipGap (inComment : Bool) (line : Nat) (readings : List Reading) :
    (skipGap inComment line readings).2 <:+ readings := by
  fun_induction skipGap inComment line readings <;> grind

theorem suffix_span (test : Char → Bool) (readings : List Reading) :
    (span test readings).2 <:+ readings := by
  fun_induction span test readings <;> grind

variable {α : Type}

theorem within_fail (cause : Diagnostic.Cause) :
    Maintains (Within readings) (fail cause : LexerM α) :=
  fun _ h => ⟨trivial, h⟩

theorem within_finish {onEnd : LexerM α} (h : Maintains (Within readings) onEnd) :
    Maintains (Within readings) (finish onEnd) := by
  intro lexer hlexer
  simp only [finish]
  split
  · exact h lexer hlexer
  · exact ⟨trivial, hlexer⟩

theorem within_deliver (text : String) (line : Nat) (quoted : Bool) :
    Maintains (Within readings) (deliver text line quoted) :=
  fun _ h => ⟨trivial, h.suffix, h.pushed⟩

theorem within_readWord {rest : List Reading} (hrest : rest <:+ readings) (first : Char) :
    Maintains (Within readings) (readWord first rest) := by
  intro lexer hlexer
  have hspan := (suffix_span Token.isWordChar rest).trans hrest
  simp only [readWord]
  split
  · exact within_fail _ _ ⟨(List.drop_suffix _ _).trans hrest, hlexer.pushed⟩
  · split <;> rename_i heq <;> rw [heq] at hspan
    · exact within_finish (within_deliver _ _ _) _ ⟨List.nil_suffix, hlexer.pushed⟩
    · exact within_deliver _ _ _ _ ⟨(List.suffix_cons _ _).trans hspan, hlexer.pushed⟩
    · have htail := (List.suffix_cons _ _).trans hspan
      split
      · exact within_deliver _ _ _ _ ⟨htail, hlexer.pushed⟩
      · split
        · exact within_deliver _ _ _ _ ⟨htail, hlexer.pushed⟩
        · exact within_deliver _ _ _ _ ⟨hspan, hlexer.pushed⟩

theorem within_readString {rest : List Reading} (hrest : rest <:+ readings) (quote : Char) :
    Maintains (Within readings) (readString quote rest) := by
  intro lexer hlexer
  have hspan := (suffix_span (fun c => c ≠ quote && c ≠ '\n') rest).trans hrest
  simp only [readString]
  split
  · exact within_fail _ _ ⟨(List.drop_suffix _ _).trans hrest, hlexer.pushed⟩
  · split <;> rename_i heq <;> rw [heq] at hspan
    · exact within_finish (within_fail _) _ ⟨List.nil_suffix, hlexer.pushed⟩
    · exact within_fail _ _ ⟨(List.suffix_cons _ _).trans hspan, hlexer.pushed⟩
    · have htail := (List.suffix_cons _ _).trans hspan
      split
      · exact within_deliver _ _ _ _ ⟨htail, hlexer.pushed⟩
      · exact within_fail _ _ ⟨htail, hlexer.pushed⟩

theorem within_next : Maintains (Within readings) next := by
  intro lexer hlexer
  rw [next_eq_scan hlexer.pushed]
  have hgap := (suffix_skipGap false lexer.line lexer.source.ahead).trans hlexer.suffix
  simp only [scan]
  split <;> rename_i heq <;> rw [heq] at hgap
  · exact within_finish (.pure trivial) _ ⟨List.nil_suffix, hlexer.pushed⟩
  · exact ⟨trivial, (List.suffix_cons _ _).trans hgap, hlexer.pushed⟩
  · have htail := (List.suffix_cons _ _).trans hgap
    split
    · exact within_readString htail _ _ ⟨hlexer.suffix, hlexer.pushed⟩
    · split
      · exact within_deliver _ _ _ _ ⟨htail, hlexer.pushed⟩
      · exact within_readWord htail _ _ ⟨hlexer.suffix, hlexer.pushed⟩

theorem within_collectInto {rest : List Reading} (hrest : rest <:+ readings)
    (collector : Segment.Collector) : Maintains (Within readings) (collectInto collector rest) := by
  intro lexer hlexer
  induction rest generalizing collector lexer with
  | nil => exact within_finish (within_fail _) _ ⟨List.nil_suffix, hlexer.pushed⟩
  | cons reading rest ih =>
    have htail := (List.suffix_cons _ _).trans hrest
    cases reading with
    | none => exact within_fail _ _ ⟨htail, hlexer.pushed⟩
    | some c =>
      have hafter : Within readings (if c = '\n' then
          { lexer.skipTo rest with line := (lexer.skipTo rest).line + 1 }
          else lexer.skipTo rest) := by
        split <;> exact ⟨htail, hlexer.pushed⟩
      simp only [collectInto]
      split
      · split <;> exact ⟨trivial, hafter⟩
      · split
        · exact ih htail _ _ hafter
        · exact ⟨trivial, hafter⟩

/-- Reading stays in front of characters if all that it leaves is within what has been to come. -/
theorem plain_of_within {action : LexerM α}
    (h : ∀ readings lexer, lexer.source.ahead = readings → Within readings lexer →
      Outcome (fun _ => Within readings) (fun _ => Within readings) (action lexer)) :
    Maintains Plain action := by
  intro lexer hlexer
  obtain ⟨chars, hfront⟩ := hlexer.exists_front
  have hwithin : Within (chars.map some) lexer := ⟨hfront.ahead ▸ List.suffix_rfl, hfront.pushed⟩
  exact (h _ lexer hfront.ahead hwithin).mono (fun _ _ h => ⟨trivial, h.plain⟩)
    fun _ _ h => ⟨trivial, h.plain⟩

theorem plain_next : Maintains Plain next :=
  plain_of_within fun _ lexer _ h =>
    (within_next lexer h).mono (fun _ _ h => h.2) fun _ _ h => h.2

theorem plain_collect (alphabet : Segment.Alphabet) : Maintains Plain (collect alphabet) := by
  refine plain_of_within fun readings lexer hahead h => ?_
  rw [collect, hahead]
  exact (within_collectInto List.suffix_rfl _ lexer h).mono (fun _ _ h => h.2) fun _ _ h => h.2

/-! ## One token -/

/-- A lexeme is consumed behind a gap, and the rest is left. -/
inductive Consumes : List Char → Lexeme → List Char → Prop
  | intro {gap gone rest : List Char} {lexeme : Lexeme} (hgap : IsGap gap) (hlegal : lexeme.Legal)
      (hends : lexeme.Ends (gone ++ rest)) (halong : lexeme.Along gone) :
      Consumes (gap ++ (lexeme.chars ++ (gone ++ rest))) lexeme rest

/-- A word takes at most one character along. -/
theorem length_le_of_readWord {first : Char} {body : List Char} {found : Option Token}
    (hbody : ∀ c ∈ body, Token.isWordChar c = true)
    (hends : ∀ c ∈ rest.head?, Token.isWordChar c = false)
    (h : readWord first ((body ++ rest).map some) lexer = .ok found after) :
    rest.length ≤ after.source.ahead.length + 1 := by
  simp only [readWord, span_append hbody hends] at h
  split at h
  · cases h
  · cases rest with
    | nil => exact Nat.zero_le _
    | cons c rest =>
      simp only [List.map_cons] at h
      split at h
      · cases h
        simp [skipTo, Source.skipTo]
      · split at h <;> cases h <;> simp [skipTo, Source.skipTo]

/-- A string takes nothing along. -/
theorem ahead_of_readString {quote : Char} {body : List Char} {found : Option Token}
    (hbody : ∀ c ∈ body, c ≠ quote ∧ c ≠ '\n')
    (h : readString quote ((body ++ [quote] ++ rest).map some) lexer = .ok found after) :
    after.source.ahead = rest.map some := by
  have hspan : span (fun c => c ≠ quote && c ≠ '\n') ((body ++ ([quote] ++ rest)).map some) =
      (body, ([quote] ++ rest).map some) :=
    span_append (by simpa using hbody) (by simp)
  rw [List.append_assoc] at h
  simp only [readString, hspan] at h
  split at h
  · cases h
  · rw [List.map_append, List.map_singleton, List.singleton_append] at h
    simp only [if_true] at h
    cases h
    rfl

/-- Of blanks that are gone behind a lexeme, no more are gone than go along with it. -/
theorem exists_along {lexeme : Lexeme} {found : Option Token}
    (h : Resumes (gap ++ (lexeme.chars ++ rest)) lexer) (hgap : IsGap gap) (hlegal : lexeme.Legal)
    (hends : lexeme.Ends rest) (hnext : next lexer = .ok found after)
    (hafter : Resumes rest after) :
    ∃ gone rest', rest = gone ++ rest' ∧ lexeme.Along gone ∧ Front rest' after := by
  obtain ⟨gone, rest', rfl, hgone, hahead⟩ := hafter.ahead
  refine ⟨gone, rest', rfl, ?_, hahead, hafter.pushed⟩
  obtain ⟨line, hline⟩ := Resumes.exists_line h hgap (endsGap_first hlegal)
  rw [next_eq_scan h.pushed, scan_eq hline] at hnext
  -- Nothing is gone if all of the rest is still to come.
  have hnone (hall : after.source.ahead = (gone ++ rest').map some) : gone = [] := by
    have hsame := (List.map_inj_right fun _ _ => Option.some.inj).1 (hahead.symm.trans hall)
    exact List.append_left_eq_self.1 hsame.symm
  cases lexeme with
  | word first body =>
    have hword : IsWord first body := hlegal
    rw [if_neg (by simp [Lexeme.first, isQuote_eq_false hword.isPunctuation_eq]),
      if_neg (by simp [Lexeme.first, hword.isPunctuation_eq])] at hnext
    have hlength := length_le_of_readWord hword.isWordChar_eq hends hnext
    rw [hahead, List.length_map, List.length_append] at hlength
    exact ⟨by omega, hgone⟩
  | mark c =>
    have hmark : IsMark c := hlegal
    rw [if_neg (by simp [Lexeme.first, hmark.isQuote_eq]),
      if_pos (by exact hmark.isPunctuation_eq)] at hnext
    cases hnext
    exact hnone rfl
  | string quote body =>
    rw [if_pos (by exact hlegal.1)] at hnext
    exact hnone (ahead_of_readString hlegal.2.2 hnext)

/-- Whatever comes next: a token is read by consuming its lexeme, or none is found behind the last
gap. -/
theorem outcome_next_front (h : Front chars lexer) :
    Outcome (fun found after => found = none ∧ IsLastGap chars ∧ Front [] after ∨
        ∃ token lexeme rest, found = some token ∧ Consumes chars lexeme rest ∧
          lexeme.Gives token ∧ Front rest after)
      (fun diagnostic after => IsLexical diagnostic ∧ Plain after) (next lexer) := by
  have houtcome := (outcome_next h.resumes).and (plain_next lexer h.plain)
  cases hnext : next lexer with
  | error diagnostic after =>
    rw [hnext] at houtcome
    exact ⟨houtcome.1, houtcome.2.2⟩
  | ok found after =>
    rw [hnext] at houtcome
    obtain ⟨⟨-, ⟨rfl, hlast, hresumes, -⟩ | ⟨token, gap, lexeme, rest, rfl, rfl, hgap, hlegal,
      hends, hgives, hresumes⟩⟩, -⟩ := houtcome
    · obtain ⟨gone, rest, hnil, -, hahead⟩ := hresumes.ahead
      obtain ⟨rfl, rfl⟩ := List.append_eq_nil_iff.1 hnil.symm
      exact .inl ⟨rfl, hlast, hahead, hresumes.pushed⟩
    · obtain ⟨gone, rest', rfl, halong, hfront⟩ :=
        exists_along h.resumes hgap hlegal hends hnext hresumes
      exact .inr ⟨token, lexeme, rest', rfl, ⟨hgap, hlegal, hends, halong⟩, hgives, hfront⟩

/-- A punctuation character that is read is consumed behind a gap, and nothing else. -/
theorem exists_of_next_mark {c : Char} {token : Token} (hc : isPunctuation c = true)
    (h : Resumes chars lexer) (hnext : next lexer = .ok (some token) after)
    (htoken : token.Is (String.singleton c)) :
    ∃ gap rest, chars = gap ++ c :: rest ∧ IsGap gap ∧ Front rest after := by
  have houtcome := outcome_next h
  rw [hnext] at houtcome
  obtain ⟨-, ⟨hnone, -⟩ | ⟨_, gap, lexeme, rest, ⟨⟩, rfl, hgap, hlegal, hends, hgives,
    hafter⟩⟩ := houtcome
  · cases hnone
  have htext := htoken.2.symm.trans hgives.1
  have hquoted := htoken.1.symm.trans hgives.2
  obtain ⟨gone, rest, rfl, halong, hfront⟩ := exists_along h hgap hlegal hends hnext hafter
  cases lexeme with
  | word first body =>
    have hfirst : [c] = first :: body := String.ofList_injective htext
    obtain rfl := (List.cons.inj hfirst).1
    cases hc.symm.trans (IsWord.isPunctuation_eq hlegal)
  | mark c' =>
    obtain rfl : c = c' := List.singleton_injective (String.ofList_injective htext)
    obtain rfl : gone = [] := halong
    exact ⟨gap, rest, rfl, hgap, hfront⟩
  | string => cases hquoted

/-! ## Data segments -/

/-- A data segment is consumed up to the delimiter that closes it, and no further. -/
theorem outcome_collect_front (alphabet : Segment.Alphabet) (h : Front chars lexer) :
    Outcome (fun octets after => ∃ raw rest, chars = raw ++ '\x7d' :: rest ∧ '\x7d' ∉ raw ∧
        Segment.Collector.decodeRest raw { alphabet } = .ok octets ∧ Front rest after)
      (fun _ => Plain) (collect alphabet lexer) := by
  have hplain := plain_collect alphabet lexer h.plain
  rw [collect, h.ahead] at hplain ⊢
  by_cases hclose : '\x7d' ∈ chars
  · obtain ⟨raw, rest, rfl, hraw⟩ := List.eq_append_cons_of_mem hclose
    refine ((outcome_collectInto hraw).and hplain).mono ?_ fun _ _ h => h.2.2
    rintro octets after ⟨⟨hoctets, hahead, hpushed, -⟩, -⟩
    exact ⟨raw, rest, rfl, hraw, hoctets, hahead, hpushed.trans h.pushed⟩
  · exact ((outcome_collectInto_open hclose).and hplain).mono (fun _ _ h => h.1.elim)
      fun _ _ h => h.2.2

/-! ## Several pieces -/

/-- The pieces are read one after the other. -/
inductive Trail : List Piece → Lexer → Lexer → Prop
  | nil {lexer : Lexer} : Trail [] lexer lexer
  | token {token : Token} {pieces : List Piece} {lexer middle after : Lexer}
      (hnext : next lexer = .ok (some token) middle) (h : Trail pieces middle after) :
      Trail (.token token.text token.quoted :: pieces) lexer after
  | segment {raw rest : List Char} {pieces : List Piece} {lexer middle after : Lexer}
      (hraw : '\x7d' ∉ raw) (hfront : Front (raw ++ '\x7d' :: rest) lexer)
      (hmiddle : Front rest middle) (h : Trail pieces middle after) :
      Trail (.segment (visible raw) :: pieces) lexer after

namespace Trail

variable {pieces more : List Piece} {middle : Lexer} {token : Token}

theorem trans (h : Trail pieces lexer middle) (hmore : Trail more middle after) :
    Trail (pieces ++ more) lexer after := by
  induction h with
  | nil => exact hmore
  | token hnext _ ih => exact .token hnext (ih hmore)
  | segment hraw hfront hmiddle _ ih => exact .segment hraw hfront hmiddle (ih hmore)

theorem split (h : Trail (pieces ++ more) lexer after) :
    ∃ middle, Trail pieces lexer middle ∧ Trail more middle after := by
  induction pieces generalizing lexer with
  | nil => exact ⟨lexer, .nil, h⟩
  | cons piece pieces ih =>
    cases h with
    | token hnext h =>
      obtain ⟨middle, hfirst, hmore⟩ := ih h
      exact ⟨middle, .token hnext hfirst, hmore⟩
    | segment hraw hfront hmiddle h =>
      obtain ⟨middle, hfirst, hmore⟩ := ih h
      exact ⟨middle, .segment hraw hfront hmiddle hfirst, hmore⟩

theorem single (hnext : next lexer = .ok (some token) after) :
    Trail [.token token.text token.quoted] lexer after :=
  .token hnext .nil

/-- If a token has been read, it has been the next one. -/
theorem exists_next {text : String} {quoted : Bool}
    (h : Trail [.token text quoted] lexer after) :
    ∃ line, next lexer = .ok (some ⟨text, line, quoted⟩) after := by
  cases h with
  | token hnext h =>
    cases h
    exact ⟨_, hnext⟩

/-- Pieces that have been read come in front of those that come then. -/
theorem shows (h : Trail pieces lexer after) (hplain : Plain lexer) (hmore : Shows more after) :
    Shows (pieces ++ more) lexer := by
  induction h with
  | nil => exact hmore
  | token hnext _ ih =>
    have houtcome := outcome_next_shows hplain
    rw [hnext] at houtcome
    obtain ⟨hmiddle, -, ⟨hnone, -⟩ | ⟨_, ⟨⟩, hshows⟩⟩ := houtcome
    · cases hnone
    · exact hshows _ (ih hmiddle hmore)
  | segment hraw hfront hmiddle _ ih =>
    have hrest := hmiddle.resumes.renders (ih hmiddle.plain hmore)
    exact ⟨_, hfront.resumes, .segment hraw hrest⟩

/-- The tokens that have been read are those of lexemes, which follow one after the other. -/
theorem exists_items (h : Trail pieces lexer after) (htokens : ∀ digits, .segment digits ∉ pieces)
    (hlexer : Resumes chars lexer) :
    ∃ items rest, chars = Layout.joined items rest ∧ Layout.Fits items rest ∧
      items.map (fun item => .token item.2.text item.2.quoted) = pieces ∧ Resumes rest after := by
  induction h generalizing chars with
  | nil => exact ⟨[], chars, rfl, trivial, rfl, hlexer⟩
  | segment => exact absurd List.mem_cons_self (htokens _)
  | token hnext _ ih =>
    have houtcome := outcome_next hlexer
    rw [hnext] at houtcome
    obtain ⟨-, ⟨hnone, -⟩ | ⟨_, gap, lexeme, rest, ⟨⟩, rfl, hgap, hlegal, hends, hgives,
      hmiddle⟩⟩ := houtcome
    · cases hnone
    · obtain ⟨items, rest, rfl, hfits, rfl, hafter⟩ :=
        ih (fun digits hmem => htokens digits (List.mem_cons_of_mem _ hmem)) hmiddle
      refine ⟨(gap, lexeme) :: items, rest, rfl, ⟨⟨hgap, hlegal, hends⟩, hfits⟩, ?_, hafter⟩
      rw [List.map_cons, hgives.1, hgives.2]

end Trail

/-- A token that is read is a trail of its own. -/
theorem outcome_next_trail (h : Plain lexer) :
    Outcome (fun found after => Plain after ∧
        ∀ token ∈ found, Trail [.token token.text token.quoted] lexer after)
      (fun _ => Plain) (next lexer) := by
  have hplain := plain_next lexer h
  cases hnext : next lexer with
  | error diagnostic after =>
    rw [hnext] at hplain
    exact hplain.2
  | ok found after =>
    rw [hnext] at hplain
    refine ⟨hplain.2, ?_⟩
    rintro token ⟨⟩
    exact .single hnext

/-- Octets that are collected are those of a data segment, which is a trail of its own. -/
theorem outcome_collect_trail (alphabet : Segment.Alphabet) (h : Plain lexer) :
    Outcome (fun octets after => Plain after ∧ ∃ digits,
        Segment.Collector.decodeRest digits { alphabet } = .ok octets ∧
          Trail [.segment digits] lexer after)
      (fun _ => Plain) (collect alphabet lexer) := by
  obtain ⟨_, hfront⟩ := h.exists_front
  refine (outcome_collect_front alphabet hfront).mono_post ?_
  rintro octets after ⟨raw, rest, rfl, hraw, hoctets, hafter⟩
  refine ⟨hafter.plain, visible raw, ?_, .segment hraw hfront hafter .nil⟩
  rw [Segment.Collector.decodeRest_visible, hoctets]

end Lexer

end ScriptedPng
