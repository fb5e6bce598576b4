import ScriptedPng.Proofs.Block.Unique
import ScriptedPng.Proofs.Contents
import ScriptedPng.Proofs.FaultySource

/-!
# What a block leaves alone

A compilation may be given blocks one after the other, and go on after a block that has failed. A
block that is compiled is counted, and reading has come to the delimiter that closes it and no
further; a block that fails is not counted. If it fails before its body is entered, then no more
than the token behind its keyword has been read, and nothing else has changed.

## Main definitions

* `Compilation.Visited` — what a compilation comes to by given blocks.
* `Compilation.enter` — what a block does before its body.
* `Lexer.Inside` — the text of a body, up to the first delimiter that closes it.
* `Compilation.Stopped` — how far a block has been read that is not entered.

## Main statements

* `Compilation.outcome_body_trail` — a body is read up to the delimiter that closes it.
* `Compilation.outcome_enter` — what is read before a body.
* `Compilation.block_frame` — what a block changes, and what it leaves alone.
-/

namespace ScriptedPng

open Block Diagnostic Lexer Layout Png

namespace Lexer

variable {chars : List Char} {lexer after : Lexer} {tokens : List Piece} {digits : List Char}

/-- The characters are the inside of a block, up to the first delimiter that closes it; the rest is
behind the delimiter. In a data segment every such character is the delimiter. -/
inductive Inside (rest : List Char) : Keyword → List Char → Prop
  | tokens {keyword : Keyword} {items : List (List Char × Lexeme)} {gap : List Char}
      (hkeyword : keyword ∉ [.data, .pixels]) (hgap : IsGap gap)
      (hfits : Layout.Fits items (gap ++ '\x7d' :: rest))
      (hinner : ∀ item ∈ items, item.2 ≠ .mark '\x7d') : Inside rest keyword (joined items gap)
  | segment {keyword : Keyword} {raw : List Char} (hkeyword : keyword ∈ [.data, .pixels])
      (hraw : '\x7d' ∉ raw) : Inside rest keyword raw

theorem joined_rest (items : List (List Char × Lexeme)) (chars rest : List Char) :
    joined items (chars ++ rest) = joined items chars ++ rest := by
  induction items with
  | nil => rfl
  | cons item items ih => simp [joined, ih]

/-- The delimiter that opens a body is consumed, and nothing behind it. -/
theorem Trail.exists_opened (h : Trail [.bare "\x7b"] lexer after) (hlexer : Front chars lexer) :
    ∃ gap rest, chars = gap ++ '\x7b' :: rest ∧ IsGap gap ∧ Front rest after := by
  obtain ⟨line, hnext⟩ := h.exists_next
  exact exists_of_next_mark (c := '\x7b') rfl hlexer.resumes hnext ⟨rfl, rfl⟩

/-- A body of tokens is consumed up to the first delimiter that closes it. -/
theorem Trail.exists_tokens {keyword : Keyword} (h : Trail (tokens ++ [.bare "\x7d"]) lexer after)
    (hinner : ∀ piece ∈ tokens, piece.Inner) (hlexer : Front chars lexer)
    (hkeyword : keyword ∉ [.data, .pixels]) :
    ∃ inner rest, chars = inner ++ '\x7d' :: rest ∧ Inside rest keyword inner ∧
      Front rest after := by
  obtain ⟨middle, htokens, hclose⟩ := h.split
  have hnone (digits : List Char) : .segment digits ∉ tokens := fun hmem => nomatch hinner _ hmem
  obtain ⟨items, rest, rfl, hfits, rfl, hmiddle⟩ := htokens.exists_items hnone hlexer.resumes
  obtain ⟨line, hnext⟩ := hclose.exists_next
  obtain ⟨gap, rest, rfl, hgap, hafter⟩ :=
    exists_of_next_mark (c := '\x7d') rfl hmiddle hnext ⟨rfl, rfl⟩
  refine ⟨joined items gap, rest, joined_rest items gap _, .tokens hkeyword hgap hfits ?_, hafter⟩
  intro item hmem hmark
  obtain ⟨hopen⟩ := hinner _ (List.mem_map_of_mem hmem)
  exact hopen (by rw [hmark]; exact ⟨rfl, rfl⟩)

/-- A data segment is consumed up to the first delimiter. -/
theorem Trail.exists_segment {keyword : Keyword} (h : Trail [.segment digits] lexer after)
    (hlexer : Front chars lexer) (hkeyword : keyword ∈ [.data, .pixels]) :
    ∃ inner rest, chars = inner ++ '\x7d' :: rest ∧ Inside rest keyword inner ∧
      Front rest after := by
  cases h with
  | segment hraw hfront hmiddle h =>
    cases h
    exact ⟨_, _, hlexer.unique hfront, .segment hkeyword hraw, hmiddle⟩

/-- The lexer goes along with itself, and remains in front of characters. -/
theorem tracking_plain :
    Tracking (fun first second => second = first ∧ Plain first) fun _ _ _ => False := by
  -- Whatever becomes of an action, it becomes of it both times.
  have htracks {α : Type} {action : LexerM α} (h : Maintains Plain action) :
      Tracks (fun first second => second = first ∧ Plain first) (fun _ _ _ => False) Eq action
        action := by
    refine ⟨?_, fun _ _ _ h => h.elim⟩
    rintro lexer _ ⟨rfl, hplain⟩
    have houtcome := h _ hplain
    cases hresult : action _ <;> rw [hresult] at houtcome
    · exact ⟨rfl, rfl, houtcome.2⟩
    · exact .inl ⟨rfl, rfl, houtcome.2⟩
  exact ⟨htracks plain_next, fun alphabet => htracks (plain_collect alphabet),
    fun _ _ h => h.1 ▸ rfl⟩

end Lexer

namespace Compilation

variable {compilation : Compilation} {token : Token} {chars : List Char}

/-! ## Bodies -/

/-- The pieces of a block behind the delimiter that opens it. -/
theorem Content.tail_cases {content : Content} {tail : List Piece} {first second : Piece}
    (h : content.Spelled (first :: second :: tail)) :
    (content.keyword ∉ [.data, .pixels] ∧ ∃ tokens, tail = tokens ++ [.bare "\x7d"] ∧
        ∀ piece ∈ tokens, piece.Inner) ∨
      content.keyword ∈ [.data, .pixels] ∧ ∃ digits, tail = [.segment digits] := by
  cases h with
  | header h => exact .inl ⟨by simp [Content.keyword], _, rfl, h.forall_mem fun _ _ h => h.inner⟩
  | palette h => exact .inl ⟨by simp [Content.keyword], _, rfl, h.forall_mem fun _ _ h => h.inner⟩
  | chromaticities h =>
    exact .inl ⟨by simp [Content.keyword], _, rfl, h.forall_mem fun _ _ h => h.inner⟩
  | gamma h => exact .inl ⟨by simp [Content.keyword], [_], rfl, by simp [h.inner]⟩
  | intent h => exact .inl ⟨by simp [Content.keyword], [_], rfl, by simp [h.inner]⟩
  | data | pixels => exact .inr ⟨by simp [Content.keyword], _, rfl⟩

/-- The body of a block with the given keyword has been read, and no block has been counted. -/
structure BodyRead (keyword : Keyword) (compilation after : Compilation) : Prop where
  progress_eq : after.progress = compilation.progress
  exists_trail : ∃ content : Content, ∃ tail, content.keyword = keyword ∧
    content.Spelled (.bare keyword.name :: .bare "\x7b" :: tail) ∧
    Trail tail compilation.lexer after.lexer

/-- Whatever the body, its pieces are read. -/
theorem outcome_body_trail (keyword : Keyword) (hplain : Plain compilation.lexer) :
    Outcome (fun _ => BodyRead keyword compilation) (fun _ _ => True)
      (body keyword compilation) := by
  have hreader {action : BodyM Unit} (haction : reader? keyword = some action) :
      Outcome (fun _ => BodyRead keyword compilation) (fun _ _ => True)
        (body keyword compilation) := by
    rw [body_of_reader haction]
    refine (outcome_read (outcome_reader_told haction hplain)).mono ?_ fun _ _ _ => trivial
    rintro _ after ⟨⟨content, tail, hkeyword, hspelled, hwent⟩, hprogress, -⟩
    exact ⟨hprogress, content, tail, hkeyword, hspelled, hwent.trail⟩
  cases keyword with
  | header | palette | chromaticities | gamma | intent => exact hreader rfl
  | data =>
    refine (outcome_data_told hplain).mono_post ?_
    rintro _ after ⟨digits, hdone⟩
    exact ⟨hdone.progress, .data digits, _, rfl, .data, hdone.went.trail⟩
  | pixels =>
    refine (outcome_pixels_told hplain).mono_post ?_
    rintro _ after ⟨digits, hdone⟩
    exact ⟨hdone.progress, .pixels digits, _, rfl, .pixels, hdone.went.trail⟩
  | _ => trivial

/-- A body is consumed up to the first delimiter that closes it. -/
theorem outcome_body_front (keyword : Keyword) (h : Front chars compilation.lexer) :
    Outcome (fun _ after => after.progress = compilation.progress ∧
        ∃ inner rest, chars = inner ++ '\x7d' :: rest ∧ Inside rest keyword inner ∧
          Front rest after.lexer)
      (fun _ _ => True) (body keyword compilation) := by
  refine (outcome_body_trail keyword h.plain).mono_post ?_
  rintro _ after ⟨hprogress, content, tail, rfl, hspelled, htrail⟩
  refine ⟨hprogress, ?_⟩
  obtain ⟨hkeyword, tokens, rfl, hinner⟩ | ⟨hkeyword, digits, rfl⟩ := Content.tail_cases hspelled
  · exact htrail.exists_tokens hinner h hkeyword
  · exact htrail.exists_segment h hkeyword

/-! ## What comes before a body -/

/-- Reads what comes before the body of a block, and checks whether the block is allowed. -/
def enter (token : Token) : CompileM Keyword :=
  match keyword? token with
  | none => read (failAt token (.unknownBlock token.text))
  | some keyword => do
    read openBody
    let compilation ← get
    verify (compilation.progress.check compilation.image.color keyword)
    return keyword

/-- A block is entered, its body is compiled, and it is counted. -/
theorem block_eq (token : Token) : block token = (do
    let keyword ← enter token
    body keyword
    modify fun compilation =>
      { compilation with progress := compilation.progress.add keyword }) := by
  unfold block enter
  cases keyword? token with
  | none => rfl
  | some keyword => simp only [bind_assoc, pure_bind]

/-- How far a block that is not entered has been read: not at all if its keyword is not known, and
at most up to the token behind the keyword else, unless reading this token fails. -/
inductive Stopped (token : Token) (compilation : Compilation) (chars : List Char) :
    Failure → Lexer → Prop
  | unknown (hkeyword : keyword? token = none) :
      Stopped token compilation chars
        (.diagnostic ⟨.unknownBlock token.text, some (.at token.line)⟩) compilation.lexer
  | lexical {diagnostic : Diagnostic} {after : Lexer} (h : IsLexical diagnostic) :
      Stopped token compilation chars (.diagnostic diagnostic) after
  | ended {after : Lexer} (hlast : IsLastGap chars) (hafter : Front [] after) :
      Stopped token compilation chars (.ofCause .unexpectedEnd) after
  | missing {found : Token} {lexeme : Lexeme} {rest : List Char} {after : Lexer}
      (hconsumes : Consumes chars lexeme rest) (hgives : lexeme.Gives found)
      (hfound : ¬ found.Is "\x7b") (hafter : Front rest after) :
      Stopped token compilation chars
        (.diagnostic ⟨.missingDelimiter, some (.at found.line)⟩) after
  | refused {keyword : Keyword} {cause : Cause} {gap rest : List Char} {after : Lexer}
      (hkeyword : keyword? token = some keyword) (hchars : chars = gap ++ '\x7b' :: rest)
      (hgap : IsGap gap)
      (hcheck : compilation.progress.check compilation.image.color keyword = .error cause)
      (hcategory : cause.category ∈ [.repeatedBlock, .unsupported, .ordering, .colorType])
      (hafter : Front rest after) : Stopped token compilation chars (.ofCause cause) after

/-- The delimiter that opens a body is consumed, or else at most one token. -/
theorem outcome_openBody_front (token : Token) (h : Front chars compilation.lexer) :
    Outcome (fun _ after => (∃ gap rest, chars = gap ++ '\x7b' :: rest ∧ IsGap gap ∧
        Front rest after.lexer) ∧ after.image = compilation.image)
      (fun diagnostic after =>
        Stopped token compilation chars (.diagnostic diagnostic) after.lexer ∧
          after.image = compilation.image)
      (openBody compilation.toBody) := by
  have hnext := (outcome_next_front h).and (outcome_next_trail h.plain)
  refine .bind ((Block.outcome_read hnext).mono (fun _ _ h => h) ?_) ?_
  · rintro diagnostic after ⟨himage, ⟨hlexical, -⟩, -⟩
    exact ⟨.lexical hlexical, himage⟩
  · rintro _ after ⟨himage, ⟨rfl, hlast, hafter⟩ | ⟨found, lexeme, rest, rfl, hconsumes, hgives,
      hafter⟩, -, htrail⟩
    · exact ⟨.ended hlast hafter, himage⟩
    · refine .ite (fun his => .pure ⟨?_, himage⟩) fun his => .throw ⟨?_, himage⟩
      · have hopened := htrail found rfl
        rw [his.1, his.2] at hopened
        exact hopened.exists_opened h
      · exact .missing hconsumes hgives his hafter

/-- What is read before a body; nothing else changes. -/
theorem outcome_enter (token : Token) (h : Front chars compilation.lexer) :
    Outcome (fun keyword after => keyword? token = some keyword ∧
        (∃ gap rest, chars = gap ++ '\x7b' :: rest ∧ IsGap gap ∧ Front rest after.lexer) ∧
        after.progress = compilation.progress)
      (fun failure after => Stopped token compilation chars failure after.lexer ∧
        after.image = compilation.image ∧ after.writer = compilation.writer)
      (enter token compilation) := by
  unfold enter
  cases hkeyword : keyword? token with
  | none => exact ⟨.unknown hkeyword, rfl, rfl⟩
  | some keyword =>
    refine .bind ((outcome_read (outcome_openBody_front token h)).mono_fault ?_) ?_
    · rintro _ after ⟨⟨diagnostic, rfl, hstopped, himage⟩, -, hwriter⟩
      exact ⟨hstopped, himage, hwriter⟩
    rintro _ ⟨body, progress, writer⟩ ⟨⟨⟨gap, rest, rfl, hgap, hafter⟩, himage⟩, hprogress,
      hwriter⟩
    dsimp only at hprogress hwriter
    subst hprogress hwriter
    change Outcome _ _ ((verify (compilation.progress.check body.image.color keyword) >>= _) _)
    rw [himage]
    cases hcheck : compilation.progress.check compilation.image.color keyword with
    | error cause =>
      exact ⟨.refused hkeyword rfl hgap hcheck (category_of_check hcheck) hafter, himage, rfl⟩
    | ok _ => exact ⟨rfl, ⟨gap, rest, rfl, hgap, hafter⟩, rfl⟩

/-! ## Blocks one after the other -/

/-- What a compilation of any source comes to by blocks that start with given tokens, and by reading
tokens. A block that fails leaves what it has come to. -/
inductive Visited : Compilation → Prop
  | start (chars : List Char) (fault : Option String) (sink : Sink) :
      Visited (.ofSource { Source.ofChars chars with fault } sink)
  | next {compilation : Compilation} (h : Visited compilation) :
      Visited (ended (Compilation.next compilation)).2
  | block {compilation : Compilation} (h : Visited compilation) (token : Token) :
      Visited (ended (Compilation.block token compilation)).2

/-- An action that goes along with itself leaves the lexer in front of characters. -/
theorem plain_of_tracks {α : Type} {action : CompileM α}
    (h : Paired.GoesAlong (fun first second => second = first ∧ Plain first) (fun _ _ _ => False)
      Eq action) (hplain : Plain compilation.lexer) :
    Plain (ended (action compilation)).2.lexer := by
  have hlockstep := h.lockstep compilation compilation ⟨⟨⟨rfl, hplain⟩, rfl⟩, rfl, rfl⟩
  cases hresult : action compilation <;> rw [hresult] at hlockstep
  · exact hlockstep.2.body.lexer.2
  · obtain ⟨-, hstep⟩ | hlost := hlockstep
    · exact hstep.body.lexer.2
    · exact (Paired.not_lost hlost).elim

/-- The lexer is always in front of characters, and nothing is pushed back. -/
theorem Visited.plain (h : Visited compilation) : Plain compilation.lexer := by
  induction h with
  | start chars fault sink => exact ⟨chars, resumes_of_ahead rfl rfl⟩
  | next _ ih => exact plain_of_tracks (Paired.tracks_next tracking_plain) ih
  | block _ token ih => exact plain_of_tracks (Paired.tracks_block tracking_plain token) ih

/-- A block that is compiled is consumed up to the delimiter that closes it, and is counted. -/
theorem outcome_block_front (token : Token) (h : Front chars compilation.lexer) :
    Outcome (fun _ after => ∃ keyword gap inner rest, keyword? token = some keyword ∧
        after.progress = compilation.progress.add keyword ∧
        chars = gap ++ '\x7b' :: (inner ++ '\x7d' :: rest) ∧ IsGap gap ∧
        Inside rest keyword inner ∧ Front rest after.lexer)
      (fun _ _ => True) (block token compilation) := by
  rw [block_eq]
  refine .bind ((outcome_enter token h).mono_fault fun _ _ _ => trivial) ?_
  rintro keyword opened ⟨hkeyword, ⟨gap, rest, rfl, hgap, hopened⟩, hprogress⟩
  refine .bind (outcome_body_front keyword hopened) ?_
  rintro _ closed ⟨hsame, inner, rest, rfl, hinside, hclosed⟩
  exact ⟨keyword, gap, inner, rest, hkeyword, congrArg (Progress.add keyword)
    (hsame.trans hprogress), rfl, hgap, hinside, hclosed⟩

theorem progress_of_error {failure : Failure} {after : Compilation}
    (h : block token compilation = .error failure after) :
    after.progress = compilation.progress := by
  have hclosed (keyword : Keyword) : Closed keyword fun _ => True := fun _ _ _ _ => trivial
  have houtcome := @outcome_block_at (fun _ => True) token compilation (fun keyword _ =>
    hclosed keyword) trivial
  rw [h] at houtcome
  exact houtcome.1

/-- Whatever blocks have been given before: a block that is compiled adds one to the count of its
keyword, which is the previous one then, and reading has come to the delimiter that closes the
block and no further. A block that fails leaves all counts and the previous keyword as they are. If
it fails before its body is entered, it leaves the description of the image and the writer as they
are as well, and at most the token behind the keyword has been read. -/
theorem block_frame (h : Visited compilation) (token : Token) :
    ∃ chars, Front chars compilation.lexer ∧
      (∀ after, block token compilation = .ok () after →
        ∃ keyword gap inner rest, keyword? token = some keyword ∧
          (∀ other, after.progress.count other =
            compilation.progress.count other + if keyword = other then 1 else 0) ∧
          after.progress.previous = some keyword ∧
          chars = gap ++ '\x7b' :: (inner ++ '\x7d' :: rest) ∧ IsGap gap ∧
          Inside rest keyword inner ∧ Front rest after.lexer) ∧
      (∀ failure after, block token compilation = .error failure after →
        after.progress = compilation.progress) ∧
      ∀ failure after, enter token compilation = .error failure after →
        block token compilation = .error failure after ∧
          Stopped token compilation chars failure after.lexer ∧
          after.image = compilation.image ∧ after.writer = compilation.writer := by
  obtain ⟨chars, hfront⟩ := h.plain.exists_front
  refine ⟨chars, hfront, fun after hblock => ?_, fun _ _ => progress_of_error,
    fun failure after henter => ⟨?_, ?_⟩⟩
  · have houtcome := outcome_block_front token hfront
    rw [hblock] at houtcome
    obtain ⟨keyword, gap, inner, rest, hkeyword, hprogress, hchars⟩ := houtcome
    refine ⟨keyword, gap, inner, rest, hkeyword, fun other => ?_, ?_, hchars⟩
    · rw [hprogress, Progress.count_add]
    · rw [hprogress]
      rfl
  · rw [block_eq]
    exact bind_of_error henter
  · have houtcome := outcome_enter token hfront
    rw [henter] at houtcome
    exact houtcome

/-- A header behind a header is not entered. -/
theorem block_frame_repeated :
    let token : Token := ⟨"IHDR", 1, false⟩
    let chars := "\x7bwidth 1 height 1\x7d \x7bwidth 2\x7d".toList
    let compilation := (ended (block token (.ofSource (.ofChars chars) {}))).2
    ∃ after, block token compilation = .error (.ofCause (.repeatedBlock "IHDR")) after ∧
      after.image = compilation.image ∧ after.writer = compilation.writer ∧
      after.progress = compilation.progress := by
  intro token chars compilation
  have hvisited : Visited compilation := .block (.start chars none {}) token
  obtain ⟨_, -, -, hfailed, hentered⟩ := block_frame hvisited token
  have hended : (ended (enter token compilation)).1 =
      .error (.ofCause (.repeatedBlock "IHDR")) := by
    decide +kernel
  cases henter : enter token compilation with
  | ok keyword after => simp [henter, ended] at hended
  | error failure after =>
    obtain rfl : failure = _ := by simpa [henter, ended] using hended
    obtain ⟨hblock, -, himage, hwriter⟩ := hentered _ after henter
    exact ⟨after, hblock, himage, hwriter, hfailed _ after hblock⟩

end Compilation

end ScriptedPng
