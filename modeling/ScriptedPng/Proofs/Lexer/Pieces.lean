import ScriptedPng.Proofs.Lexer.Lexeme
import ScriptedPng.Proofs.Segment.Spelled

/-!
# Sources in pieces

Apart from its layout, a source is a sequence of tokens and data segments. The tokens may have gaps
of blanks and comments around them; in a data segment only the characters that are no blanks matter.
The same pieces can be rendered in many ways, and the lexer reads the same from all of them.

## Main definitions

* `Piece` — tokens and data segments.
* `Renders` — characters render pieces.
* `Lexer.Shows` — the lexer is in front of characters that render pieces.

## Main statements

* `Lexer.succeeds_next_token`, `Lexer.succeeds_next_done` — the first token is read, and none at the
  end.
* `Lexer.outcome_collect_segment`, `Lexer.outcome_collect_open` — a data segment is collected from
  its digits.
* `Lexer.outcome_next_shows` — only pieces are read.
-/

namespace ScriptedPng

open Text Lexer Segment

/-- A part of a source, apart from its layout. -/
inductive Piece where
  | token (text : String) (quoted : Bool)
  /-- The characters of a data segment that are no blanks, up to the delimiter that closes it. -/
  | segment (digits : List Char)
  /-- The same of a data segment that is not closed. -/
  | openSegment (digits : List Char)
deriving DecidableEq, Repr

/-- The characters that are no blanks. -/
def visible (chars : List Char) : List Char :=
  chars.filter fun c => !isBlank c

/-- The characters render the pieces. Tokens are rendered as lexemes behind gaps, and a word is
followed by a character that is none of it. A data segment is rendered with blanks anywhere in it.
-/
inductive Renders : List Piece → List Char → Prop
  | done {gap : List Char} (h : IsLastGap gap) : Renders [] gap
  | token {pieces : List Piece} {gap chars : List Char} {lexeme : Lexeme} (hgap : IsGap gap)
      (hlegal : lexeme.Legal) (hends : lexeme.Ends chars) (h : Renders pieces chars) :
      Renders (.token lexeme.text lexeme.quoted :: pieces) (gap ++ (lexeme.chars ++ chars))
  | segment {pieces : List Piece} {raw chars : List Char} (hraw : '\x7d' ∉ raw)
      (h : Renders pieces chars) :
      Renders (.segment (visible raw) :: pieces) (raw ++ '\x7d' :: chars)
  | openSegment {raw : List Char} (hraw : '\x7d' ∉ raw) : Renders [.openSegment (visible raw)] raw

variable {pieces : List Piece} {chars rest raw : List Char} {c : Char}

/-! ## Blanks in front -/

theorem isGap_cons_iff (h : isBlank c = true) : IsGap (c :: chars) ↔ IsGap chars := by
  constructor
  · rintro (_ | ⟨-, hgap⟩ | _)
    · exact hgap
    · cases h
  · exact .blank h

theorem isLastGap_cons_iff (h : isBlank c = true) : IsLastGap (c :: chars) ↔ IsLastGap chars := by
  constructor
  · intro hlast
    generalize heq : c :: chars = gap at hlast
    cases hlast with
    | closed hgap =>
      subst heq
      exact .closed ((isGap_cons_iff h).1 hgap)
    | @opened gap body hgap hbody =>
      cases gap with
      | nil =>
        cases heq
        cases h
      | cons first gap =>
        cases heq
        exact .opened ((isGap_cons_iff h).1 hgap) hbody
  · exact (IsLastGap.append (.blank h .nil))

theorem visible_cons (h : isBlank c = true) : visible (c :: chars) = visible chars := by
  simp [visible, h]

theorem visible_cons_of_not (h : isBlank c = false) :
    visible (c :: chars) = c :: visible chars := by
  simp [visible, h]

/-- A blank in front of all pieces is of no account. -/
theorem renders_cons_iff (h : isBlank c = true) :
    Renders pieces (c :: chars) ↔ Renders pieces chars := by
  constructor
  · intro hrenders
    generalize heq : c :: chars = all at hrenders
    cases hrenders with
    | done hlast =>
      subst heq
      exact .done ((isLastGap_cons_iff h).1 hlast)
    | @token _ gap _ _ hgap hlegal hends hrest =>
      cases gap with
      | nil =>
        cases heq
        rw [(endsGap_first hlegal).isBlank_eq] at h
        cases h
      | cons first gap =>
        cases heq
        exact .token ((isGap_cons_iff h).1 hgap) hlegal hends hrest
    | @segment _ raw _ hraw hrest =>
      cases raw with
      | nil =>
        cases heq
        cases h
      | cons first raw =>
        cases heq
        rw [visible_cons h]
        exact .segment (fun hmem => hraw (List.mem_cons_of_mem _ hmem)) hrest
    | openSegment hraw =>
      subst heq
      rw [visible_cons h]
      exact .openSegment (fun hmem => hraw (List.mem_cons_of_mem _ hmem))
  · have hclose : c ≠ '\x7d' := by
      rintro rfl
      cases h
    intro hrenders
    cases hrenders with
    | done hlast => exact .done ((isLastGap_cons_iff h).2 hlast)
    | token hgap hlegal hends hrest => exact .token (.blank h hgap) hlegal hends hrest
    | segment hraw hrest =>
      rw [← visible_cons h]
      exact .segment (by simpa using ⟨hclose.symm, hraw⟩) hrest
    | openSegment hraw =>
      rw [← visible_cons h]
      exact .openSegment (by simpa using ⟨hclose.symm, hraw⟩)

theorem renders_append_iff {gone : List Char} (h : ∀ c ∈ gone, isBlank c = true) :
    Renders pieces (gone ++ chars) ↔ Renders pieces chars := by
  induction gone with
  | nil => rfl
  | cons c gone ih =>
    have hrest := ih fun c hmem => h c (List.mem_cons_of_mem _ hmem)
    exact (renders_cons_iff (h c List.mem_cons_self)).trans hrest

namespace Segment

variable {alphabet : Alphabet} {collector : Collector}

/-- The octets of a segment of which a part has been collected. -/
def Collector.decodeRest (digits : List Char) (collector : Collector) :
    Except Diagnostic.Cause Octets := do
  (← collector.feedAll digits).finish

/-- The cause that tells why a segment that is not closed gives no octets. -/
def Collector.openFault (digits : List Char) (collector : Collector) : Diagnostic.Cause :=
  match collector.feedAll digits with
  | .ok _ => .endInData
  | .error cause => cause

theorem decode_eq (alphabet : Alphabet) (digits : List Char) :
    decode alphabet (String.ofList digits) = Collector.decodeRest digits { alphabet } := by
  simp [decode, Collector.decodeRest, Collector.feedAll]

theorem Collector.decodeRest_cons (c : Char) :
    collector.decodeRest (c :: raw) = (do (← collector.feed c).decodeRest raw) := by
  simp [Collector.decodeRest, Collector.feedAll_cons]

theorem Collector.decodeRest_visible :
    collector.decodeRest (visible raw) = collector.decodeRest raw := by
  simp only [Collector.decodeRest, visible, Collector.feedAll_filter]

theorem Collector.openFault_visible :
    collector.openFault (visible raw) = collector.openFault raw := by
  simp only [Collector.openFault, visible, Collector.feedAll_filter]

end Segment

namespace Lexer

variable {lexer : Lexer} {alphabet : Alphabet} {collector : Collector}

/-- The lexer is in front of characters, and nothing is pushed back. -/
def Plain (lexer : Lexer) : Prop :=
  ∃ chars, Resumes chars lexer

/-- The lexer is in front of characters that render the pieces. -/
def Shows (pieces : List Piece) (lexer : Lexer) : Prop :=
  ∃ chars, Resumes chars lexer ∧ Renders pieces chars

/-- It does not matter which blanks are gone. -/
theorem Resumes.renders (h : Resumes chars lexer) (hshows : Shows pieces lexer) :
    Renders pieces chars := by
  obtain ⟨chars', h', hrenders⟩ := hshows
  obtain ⟨gone, rest, rfl, hgone, hahead⟩ := h.ahead
  obtain ⟨gone', rest', rfl, hgone', hahead'⟩ := h'.ahead
  obtain rfl := (List.map_inj_right fun _ _ => Option.some.inj).1 (hahead.symm.trans hahead')
  exact (renders_append_iff hgone).2 ((renders_append_iff hgone').1 hrenders)

/-! ## Tokens -/

/-- The first of the pieces is read, if it is a token. -/
theorem succeeds_next_token {text : String} {quoted : Bool}
    (h : Shows (.token text quoted :: pieces) lexer) (hfault : lexer.source.fault = none) :
    Succeeds (fun found after => (∃ line, found = some ⟨text, line, quoted⟩) ∧ Shows pieces after ∧
      after.source.fault = none) (next lexer) := by
  obtain ⟨chars, hresumes, hrenders⟩ := h
  cases hrenders with
  | @token _ gap chars lexeme hgap hlegal hends hrest =>
    refine (succeeds_next_lexeme hresumes hgap hlegal hends hfault).mono_post ?_
    rintro _ after ⟨⟨⟨text, line, quoted⟩, rfl, rfl, rfl⟩, hafter, hfault⟩
    exact ⟨⟨line, rfl⟩, ⟨chars, hafter, hrest⟩, hfault⟩

/-- At the end of the source there is no token. -/
theorem succeeds_next_done (h : Shows [] lexer) (hfault : lexer.source.fault = none) :
    Succeeds (fun found after => found = none ∧ Shows [] after ∧ after.source.fault = none)
      (next lexer) := by
  obtain ⟨chars, hresumes, hrenders⟩ := h
  cases hrenders with
  | done hlast =>
    refine (succeeds_next_last hresumes hlast hfault).mono_post ?_
    rintro _ after ⟨rfl, hafter, hfault⟩
    exact ⟨rfl, ⟨[], hafter, .done (.closed .nil)⟩, hfault⟩

/-- Whatever the source is, a token that has been read is the first piece of it, and if there is
none, then there is no piece. -/
theorem outcome_next_shows (h : Plain lexer) :
    Outcome (fun found after => Plain after ∧ after.source.fault = lexer.source.fault ∧
        (found = none ∧ Shows [] lexer ∧ lexer.source.fault = none ∨
        ∃ token, found = some token ∧ ∀ pieces, Shows pieces after →
          Shows (.token token.text token.quoted :: pieces) lexer))
      (fun diagnostic _ => IsLexical diagnostic) (next lexer) := by
  obtain ⟨chars, hresumes⟩ := h
  refine (outcome_next hresumes).mono_post ?_
  rintro _ after ⟨hsame, ⟨rfl, hlast, hafter, hfault⟩ |
    ⟨token, gap, lexeme, rest, rfl, rfl, hgap, hlegal, hends, ⟨htext, hquoted⟩, hafter⟩⟩
  · exact ⟨⟨_, hafter⟩, hsame, .inl ⟨rfl, ⟨chars, hresumes, .done hlast⟩, hfault⟩⟩
  · refine ⟨⟨_, hafter⟩, hsame, .inr ⟨token, rfl, fun pieces hshows => ?_⟩⟩
    rw [htext, hquoted]
    exact ⟨_, hresumes, .token hgap hlegal hends (hafter.renders hshows)⟩

/-! ## Data segments -/

/-- What is left of a segment is collected up to the delimiter. -/
theorem outcome_collectInto (hraw : '\x7d' ∉ raw) :
    Outcome (fun octets after => collector.decodeRest raw = .ok octets ∧
        after.source.ahead = rest.map some ∧ after.pushed = lexer.pushed ∧
        after.source.fault = lexer.source.fault)
      (fun diagnostic _ => collector.decodeRest raw = .error diagnostic.cause)
      (collectInto collector ((raw ++ '\x7d' :: rest).map some) lexer) := by
  induction raw generalizing collector lexer with
  | nil =>
    simp only [List.nil_append, List.map_cons, collectInto, if_true]
    cases hfinish : collector.finish with
    | ok octets => exact ⟨hfinish, rfl, rfl, rfl⟩
    | error cause => exact hfinish
  | cons c raw ih =>
    rw [List.mem_cons, not_or] at hraw
    simp only [List.cons_append, List.map_cons, collectInto, if_neg (Ne.symm hraw.1),
      Collector.decodeRest_cons]
    cases hfeed : collector.feed c with
    | ok collector =>
      refine (ih hraw.2).mono_post ?_
      rintro octets after ⟨hoctets, hahead, hpushed, hfault⟩
      refine ⟨hoctets, hahead, hpushed.trans ?_, hfault.trans ?_⟩ <;> split <;> rfl
    | error cause => exact rfl

/-- A segment that is not closed gives no octets. -/
theorem outcome_collectInto_open (hraw : '\x7d' ∉ raw) :
    Outcome (fun _ _ => False) (fun diagnostic _ => lexer.source.fault = none →
        diagnostic.cause = collector.openFault raw)
      (collectInto collector (raw.map some) lexer) := by
  induction raw generalizing collector lexer with
  | nil =>
    simp only [List.map_nil, collectInto, finish, skipTo, Source.skipTo]
    split
    · exact fun _ => rfl
    · rename_i hfault
      exact fun hnone => by simp [hnone] at hfault
  | cons c raw ih =>
    rw [List.mem_cons, not_or] at hraw
    simp only [List.map_cons, collectInto, if_neg (Ne.symm hraw.1)]
    cases hfeed : collector.feed c with
    | ok next =>
      have hsame : collector.openFault (c :: raw) = next.openFault raw := by
        simp [Collector.openFault, Collector.feedAll_cons, hfeed, bind, Except.bind]
      rw [hsame]
      refine (ih hraw.2).mono_fault fun _ _ hcause hfault => hcause ?_
      split <;> exact hfault
    | error cause =>
      simp [Outcome, Collector.openFault, Collector.feedAll_cons, hfeed, bind, Except.bind]

/-- Only blanks in front of the characters are gone. -/
theorem Resumes.exists_left (h : Resumes (raw ++ rest) lexer)
    (hrest : ∀ c ∈ rest.head?, isBlank c = false) :
    ∃ left, visible raw = visible left ∧ (∀ c ∈ left, c ∈ raw) ∧
      lexer.source.ahead = (left ++ rest).map some := by
  obtain ⟨gone, after, heq, hgone, hahead⟩ := h.ahead
  have hnone : visible gone = [] := by simpa [visible] using hgone
  rcases List.append_eq_append_iff.1 heq with ⟨more, rfl, rfl⟩ | ⟨left, rfl, rfl⟩
  · -- Blanks that are gone cannot reach beyond the characters.
    cases more with
    | nil => exact ⟨[], by simpa [visible] using hgone, by simp, by simpa using hahead⟩
    | cons c more =>
      have hblank := hgone c (by simp)
      rw [hrest c rfl] at hblank
      cases hblank
  · exact ⟨left, by simpa [visible] using hnone, fun c hmem => List.mem_append_right _ hmem, hahead⟩

/-- The octets of a data segment are collected, and depend on its digits only. -/
theorem outcome_collect_segment (alphabet : Alphabet) {digits : List Char}
    (h : Shows (.segment digits :: pieces) lexer) :
    Outcome (fun octets after => Collector.decodeRest digits { alphabet } = .ok octets ∧
        Shows pieces after ∧ after.source.fault = lexer.source.fault)
      (fun diagnostic _ => Collector.decodeRest digits { alphabet } = .error diagnostic.cause)
      (collect alphabet lexer) := by
  obtain ⟨chars, hresumes, hrenders⟩ := h
  cases hrenders with
  | @segment _ raw chars hraw hrest =>
    obtain ⟨left, hvisible, hleft, hahead⟩ := hresumes.exists_left (by rintro _ ⟨⟩; decide)
    rw [collect, hahead, hvisible, Collector.decodeRest_visible]
    refine (outcome_collectInto fun hmem => hraw (hleft _ hmem)).mono_post ?_
    rintro octets after ⟨hoctets, hafter, hpushed, hfault⟩
    exact ⟨hoctets, ⟨chars, resumes_of_ahead hafter (hpushed.trans hresumes.pushed), hrest⟩, hfault⟩

/-- A data segment that is not closed gives no octets, for a reason that depends on its digits only.
-/
theorem outcome_collect_open (alphabet : Alphabet) {digits : List Char}
    (h : Shows [.openSegment digits] lexer) (hfault : lexer.source.fault = none) :
    Outcome (fun _ _ => False) (fun diagnostic _ =>
        diagnostic.cause = Collector.openFault digits { alphabet }) (collect alphabet lexer) := by
  obtain ⟨chars, hresumes, hrenders⟩ := h
  cases hrenders with
  | openSegment hraw =>
    rw [← List.append_nil chars] at hresumes
    obtain ⟨left, hvisible, hleft, hahead⟩ := hresumes.exists_left (by simp)
    rw [collect, hahead, List.append_nil, hvisible, Collector.openFault_visible]
    exact (outcome_collectInto_open fun hmem => hraw (hleft _ hmem)).mono_fault
      fun _ _ hcause => hcause hfault

end Lexer

end ScriptedPng
