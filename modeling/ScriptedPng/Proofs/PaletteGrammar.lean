import ScriptedPng.Proofs.Block.Ahead
import ScriptedPng.Proofs.Block.Failures
import ScriptedPng.Proofs.Number.Literals

/-!
# The grammar of palettes

The body of a palette is a sequence of entries, up to the delimiter that closes it. There are at
most as many as a palette has room for. A body that fails has added the entries that are complete,
and no part of another one.

## Main definitions

* `Palette.Complete` — the entries that are complete, and no others behind them.

## Main statements

* `Block.outcome_entries` — what becomes of the entries of a body, whatever the source is.
* `Block.palette_grammar` — the palettes that are read, and what the others leave behind.
-/

namespace ScriptedPng.Block

open Diagnostic Palette Lexer

variable {pieces tokens : List Piece} {lexer last : Lexer} {image : Image} {body : Body}
  {entry : Rgb} {entries : List Rgb}

/-- The image with more entries in its palette. -/
def Palette.extend (image : Image) (entries : List Rgb) : Image :=
  { image with palette := image.palette ++ entries }

/-! ## Entries that are spelled -/

namespace Ahead

/-- The colors of an entry are read up to the parenthesis that closes it. -/
theorem readColors (hspelled : Palette.Spelled entry (.bare "(" :: tokens))
    (h : Ahead (tokens ++ pieces) last image body) :
    Succeeds (fun found after => found = entry ∧ Ahead pieces last image after)
      (readColors body) := by
  cases hspelled with
  | entry hred hgreen hblue =>
    refine .bind (h.integerConstant _ hred) ?_
    rintro _ _ ⟨rfl, h⟩
    refine .bind h.require fun _ _ h => .bind (h.integerConstant _ hgreen) ?_
    rintro _ _ ⟨rfl, h⟩
    refine .bind h.require fun _ _ h => .bind (h.integerConstant _ hblue) ?_
    rintro _ _ ⟨rfl, h⟩
    exact .bind h.require fun _ _ h => ⟨rfl, h⟩

/-- An entry for which there is room takes one round of the loop. -/
theorem entry_round (hspelled : Palette.Spelled entry tokens)
    (hroom : image.palette.length ≠ limit) (h : Ahead (tokens ++ pieces) last image body) :
    Succeeds (fun found middle => ∃ token, found = some token ∧
        Succeeds (fun next after => next = () ∧ Ahead pieces last (extend image [entry]) after)
          (readEntry token middle))
      (read Lexer.inner body) := by
  obtain ⟨parts, rfl⟩ : ∃ parts, tokens = .bare "(" :: parts := by
    cases hspelled
    exact ⟨_, rfl⟩
  refine (h.inner (by decide)).mono_post ?_
  rintro _ middle ⟨_, rfl, ⟨line, rfl⟩, hmiddle⟩
  refine ⟨_, rfl, ?_⟩
  have himage : Succeeds (fun found after => found = image ∧
      Ahead (parts ++ pieces) last image after) (Block.image middle) :=
    ⟨hmiddle.image_eq, hmiddle⟩
  simp only [readEntry, if_pos (show Token.Is ⟨"(", line, false⟩ "(" from ⟨rfl, rfl⟩)]
  refine .bind himage ?_
  rintro _ state ⟨rfl, hstate⟩
  rw [if_neg hroom]
  refine .bind (hstate.readColors hspelled) ?_
  rintro _ after ⟨rfl, hafter⟩
  exact ⟨trivial, hafter.trail, congrArg (extend · [_]) hafter.image_eq⟩

/-- The loop goes on behind entries for which there is room. -/
theorem exists_forEachItem_eq (hspelled : Items Palette.Spelled entries tokens)
    (hroom : image.palette.length + entries.length ≤ limit)
    (h : Ahead (tokens ++ pieces) last image body) :
    ∃ middle, Ahead pieces last (extend image entries) middle ∧
      forEachItem readEntry forward_readEntry body =
        forEachItem readEntry forward_readEntry middle := by
  induction hspelled generalizing image body with
  | nil => exact ⟨body, by simpa [extend] using h, rfl⟩
  | @cons entry entries parts rest hentry _ ih =>
    rw [List.length_cons] at hroom
    rw [List.append_assoc] at h
    obtain ⟨first, hfirst, heq⟩ :=
      exists_foldItems_eq (fun _ => forward_readEntry) (h.entry_round hentry (by omega))
    obtain ⟨middle, hmiddle, hrest⟩ := ih (by simp [extend]; omega) hfirst
    refine ⟨middle, by simpa [extend] using hmiddle, heq.trans hrest⟩

end Ahead

theorem palette_congr {body' : Body} (h : forEachItem readEntry forward_readEntry body =
    forEachItem readEntry forward_readEntry body') : palette body = palette body' := by
  simp only [palette, Bind.bind, EStateM.bind, h]

/-- The delimiter closes a palette. -/
theorem Ahead.palette_close (h : Ahead [.bare "\x7d"] last image body) :
    palette body =
      .ok () ⟨last, { image with given := { image.given with palette := true } }⟩ := by
  have hloop : Succeeds (fun _ after => Ahead [] last image after)
      (forEachItem readEntry forward_readEntry body) := .foldEach_none h.inner_close
  cases hread : forEachItem readEntry forward_readEntry body with
  | error diagnostic after =>
    rw [hread] at hloop
    exact hloop.elim
  | ok _ after =>
    rw [hread] at hloop
    obtain rfl := hloop.body_eq
    exact bind_of_ok hread

/-- No entry is read into a full palette. -/
theorem Ahead.palette_full (hfull : image.palette.length = limit)
    (h : Ahead [.bare "("] last image body) :
    ∃ line, palette body = .error ⟨.tooManyPaletteEntries, some (.at line)⟩ ⟨last, image⟩ := by
  have hinner := h.inner (by decide)
  cases hread : read Lexer.inner body with
  | error diagnostic after =>
    rw [hread] at hinner
    exact hinner.elim
  | ok found after =>
    rw [hread] at hinner
    obtain ⟨_, rfl, ⟨line, rfl⟩, hafter⟩ := hinner
    obtain rfl := hafter.body_eq
    have hentry : readEntry ⟨"(", line, false⟩ ⟨last, image⟩ =
        .error ⟨.tooManyPaletteEntries, some (.at line)⟩ ⟨last, image⟩ := by
      simp only [readEntry, if_pos (show Token.Is ⟨"(", line, false⟩ "(" from ⟨rfl, rfl⟩),
        Bind.bind, EStateM.bind, Block.image, if_pos hfull]
      rfl
    refine ⟨line, bind_of_error ?_⟩
    change foldEach _ _ _ _ _ _ = _
    rw [foldEach_eq, bind_of_ok hread]
    exact bind_of_error hentry

/-! ## Entries of any source -/

theorem raises_readColors : Raises (fun _ => True) readColors :=
  .bind (raises_integer _ _) fun _ _ => .bind (raises_require _) fun _ _ =>
    .bind (raises_integer _ _) fun _ _ => .bind (raises_require _) fun _ _ =>
    .bind (raises_integer _ _) fun _ _ => .bind (raises_require _) fun _ _ => .pure trivial

/-- An entry that is not read leaves the image as it is. -/
theorem outcome_readEntry_fault (token : Token) (hplain : Plain body.lexer) :
    Outcome (fun _ _ => body.image.palette.length ≠ limit)
      (fun diagnostic after => Header.Fault diagnostic ∧ after.image = body.image)
      (readEntry token body) := by
  refine .ite (fun _ => ?_) fun _ => ⟨.inl (by simp [Cause.category]), rfl⟩
  refine .bind ((outcome_image body).mono_fault fun _ _ h => h.elim) ?_
  rintro _ body ⟨rfl, rfl⟩
  refine .ite (fun _ => ⟨.inl (by simp [Cause.category]), rfl⟩) fun hroom => ?_
  have hread := (raises_readColors body hplain).and
    (ensures_readColors (· = body.image) body rfl)
  refine .bind (hread.mono_fault fun _ _ h => ⟨h.1.1, h.2.2⟩) ?_
  exact fun _ _ _ => hroom

/-- The entries come next, and no other complete one comes behind them unless they fill a palette.
-/
def Palette.Complete (entries : List Rgb) (lexer : Lexer) : Prop :=
  ∃ tokens middle, Items Palette.Spelled entries tokens ∧ Trail tokens lexer middle ∧
    (entries.length < limit →
      ∀ entry more last, Palette.Spelled entry more → ¬ Trail more middle last)

/-- The body has gone over entries, and has added them to the palette. -/
structure Palette.Gone (entries : List Rgb) (tokens : List Piece) (before after : Body) : Prop where
  spelled : Items Palette.Spelled entries tokens
  length_le : entries.length ≤ limit
  went : Went tokens (extend · entries) before after

/-- All complete entries are gone over if what comes next is not read as one. -/
theorem Palette.Gone.complete {after : Body} (h : Gone entries tokens body after)
    (hempty : body.image.palette = [])
    (hnone : entries.length < limit →
      ¬ Succeeds (fun found middle => ∃ token, found = some token ∧
        Succeeds (fun _ _ => True) (readEntry token middle)) (read Lexer.inner after)) :
    Complete entries body.lexer := by
  refine ⟨tokens, after.lexer, h.spelled, h.went.trail, ?_⟩
  intro hroom entry more last hentry htrail
  have hahead : Ahead (more ++ []) last (extend body.image entries) after :=
    ⟨by simpa using htrail, h.went.image_eq⟩
  refine hnone hroom ((hahead.entry_round hentry ?_).mono_post ?_)
  · simp only [extend, hempty, List.nil_append]
    omega
  · rintro found middle ⟨token, hfound, hread⟩
    exact ⟨token, hfound, hread.mono_post fun _ _ _ => trivial⟩

/-- The entries are read one after the other, as many as are complete. -/
theorem outcome_entries (hplain : Plain body.lexer) (hempty : body.image.palette = []) :
    Outcome (fun _ after => ∃ entries tokens, Items Palette.Spelled entries tokens ∧
        entries.length ≤ limit ∧ Went (tokens ++ [.bare "\x7d"]) (extend · entries) body after)
      (fun diagnostic after => Header.Fault diagnostic ∧ ∃ entries, entries.length ≤ limit ∧
        Complete entries body.lexer ∧ after.image = extend body.image entries)
      (forEachItem readEntry forward_readEntry body) := by
  have hlength {entries : List Rgb} {tokens : List Piece} {state : Body}
      (h : Gone entries tokens body state) : state.image.palette.length = entries.length := by
    simp [h.went.image_eq, extend, hempty]
  have hnil : Gone [] [] body body :=
    ⟨.nil, Nat.zero_le _, hplain, by simp [extend], .nil⟩
  refine Outcome.foldEach (fun _ state => ∃ entries tokens, Gone entries tokens body state)
    (fun _ token middle => ∃ entries tokens state, Gone entries tokens body state ∧
      Went [token.piece] id state middle ∧ read Lexer.inner state = .ok (some token) middle)
    ⟨[], [], hnil⟩ ?_ ?_
  · rintro _ state ⟨entries, tokens, hgone⟩
    have hfound := outcome_inner_went hgone.went.plain
    have hkept : Keeps (· = state.image) (read Lexer.inner) := keeps_read _
    have hfault := (raises_inner state hgone.went.plain).and (hkept state rfl)
    cases hread : read Lexer.inner state with
    | error diagnostic middle =>
      rw [hread] at hfault
      obtain ⟨⟨hfault, -⟩, -, himage⟩ := hfault
      refine ⟨hfault, entries, hgone.length_le, ?_, himage.trans hgone.went.image_eq⟩
      exact hgone.complete hempty fun _ hsucceeds => by rwa [hread] at hsucceeds
    | ok found middle =>
      rw [hread] at hfound
      obtain ⟨rfl, hclose⟩ | ⟨token, rfl, htoken⟩ := hfound
      · exact ⟨entries, tokens, hgone.spelled, hgone.length_le, hgone.went.trans hclose⟩
      · exact ⟨entries, tokens, state, hgone, htoken, hread⟩
  · rintro _ token middle ⟨entries, tokens, state, hgone, htoken, hinner⟩
    have hwent := outcome_readEntry_went token htoken.plain
    have hfault := outcome_readEntry_fault token htoken.plain
    cases hread : readEntry token middle with
    | error diagnostic after =>
      rw [hread] at hfault
      obtain ⟨hfault, himage⟩ := hfault
      refine ⟨hfault, entries, hgone.length_le, ?_,
        himage.trans (htoken.image_eq.trans hgone.went.image_eq)⟩
      refine hgone.complete hempty fun _ hsucceeds => ?_
      rw [hinner] at hsucceeds
      obtain ⟨_, ⟨⟩, hsucceeds⟩ := hsucceeds
      rwa [hread] at hsucceeds
    | ok _ after =>
      rw [hread] at hwent hfault
      obtain ⟨entry, more, hentry, hmore⟩ := hwent
      have hroom : entries.length ≠ limit := by
        have hroom : middle.image.palette.length ≠ limit := hfault
        rwa [htoken.image_eq, id, hlength hgone] at hroom
      have hall := hgone.went.trans (htoken.trans hmore)
      refine ⟨entries ++ [entry], tokens ++ token.piece :: more, hgone.spelled.concat hentry, ?_,
        by simpa [extend] using hall⟩
      have hle := hgone.length_le
      simp only [List.length_append, List.length_singleton]
      omega

/-! ## The grammar -/

/-- The colors of entries are literals up to the largest octet. -/
theorem isInteger_byteLimit_iff {text : String} {n : Nat} :
    IsInteger byteLimit text n ↔ IntegerConstant.Denotes text.toList n ∧ n ≤ 255 := by
  rw [IsInteger, IntegerConstant.parse_eq_ok_iff, byteLimit]

/-- A palette is read into an empty one if and only if its tokens are entries up to the delimiter
that closes it, and there are at most 256 of them; it consists of these entries then, and is given.
Whatever starts an entry behind 256 others is out of range. Every other palette gives a failure of
bodies; the entries that are complete have been added, and nothing else has changed. The colors are
literals as in C. -/
theorem palette_grammar (hplain : Plain body.lexer) (hempty : body.image.palette = []) :
    (∀ after, palette body = .ok () after ↔ ∃ entries tokens,
        Items Palette.Spelled entries tokens ∧ entries.length ≤ 256 ∧
        Trail (tokens ++ [.bare "\x7d"]) body.lexer after.lexer ∧
        after.image = { body.image with
          palette := entries, given := { body.image.given with palette := true } }) ∧
    (∀ entries tokens last, Items Palette.Spelled entries tokens → entries.length = 256 →
        Trail (tokens ++ [.bare "("]) body.lexer last →
        ∃ line, palette body = .error ⟨.tooManyPaletteEntries, some (.at line)⟩
          ⟨last, { body.image with palette := entries }⟩) ∧
    (∀ diagnostic after, palette body = .error diagnostic after →
        Header.Fault diagnostic ∧ ∃ entries, entries.length ≤ 256 ∧
          Complete entries body.lexer ∧ after.image = { body.image with palette := entries }) ∧
    ∀ text n, IsInteger byteLimit text n ↔ IntegerConstant.Denotes text.toList n ∧ n ≤ 255 := by
  have hextend (entries : List Rgb) :
      extend body.image entries = { body.image with palette := entries } := by
    rw [extend, hempty, List.nil_append]
  have hentries := outcome_entries hplain hempty
  refine ⟨fun after => ⟨fun h => ?_, ?_⟩, ?_, fun diagnostic after h => ?_,
    fun _ _ => isInteger_byteLimit_iff⟩
  · cases hread : forEachItem readEntry forward_readEntry body with
    | error diagnostic middle =>
      rw [palette, bind_of_error hread] at h
      cases h
    | ok _ middle =>
      rw [hread] at hentries
      obtain ⟨entries, tokens, hspelled, hlength, hwent⟩ := hentries
      rw [palette, bind_of_ok hread] at h
      cases h
      exact ⟨entries, tokens, hspelled, hlength, hwent.trail, by rw [hwent.image_eq, hextend]⟩
  · rintro ⟨entries, tokens, hspelled, hlength, htrail, himage⟩
    have hahead : Ahead (tokens ++ [.bare "\x7d"]) after.lexer body.image body := ⟨htrail, rfl⟩
    obtain ⟨middle, hmiddle, heq⟩ :=
      hahead.exists_forEachItem_eq hspelled (by simpa [hempty, limit] using hlength)
    rw [palette_congr heq, hmiddle.palette_close, hextend, ← himage]
  · intro entries tokens last hspelled hlength htrail
    have hahead : Ahead (tokens ++ [.bare "("]) last body.image body := ⟨htrail, rfl⟩
    obtain ⟨middle, hmiddle, heq⟩ := hahead.exists_forEachItem_eq hspelled
      (by simpa [hempty, limit] using Nat.le_of_eq hlength)
    obtain ⟨line, hfull⟩ := hmiddle.palette_full (by simpa [hextend, limit] using hlength)
    exact ⟨line, by rw [palette_congr heq, hfull, hextend]⟩
  · cases hread : forEachItem readEntry forward_readEntry body with
    | error cause middle =>
      rw [hread] at hentries
      obtain ⟨hfault, entries, hlength, hcomplete, himage⟩ := hentries
      rw [palette, bind_of_error hread] at h
      cases h
      exact ⟨hfault, entries, hlength, hcomplete, himage.trans (hextend entries)⟩
    | ok _ middle =>
      rw [palette, bind_of_ok hread] at h
      cases h

/-- A palette of two entries, with a color in each of the three bases. -/
theorem palette_grammar_bases :
    let body : Body :=
      { lexer := .ofSource (.ofChars "(9, 0xfF,017) (1,'2' ,3)\x7d".toList) }
    ∃ tokens, Items Palette.Spelled [⟨9, 255, 15⟩, ⟨1, 2, 3⟩] tokens ∧
      Trail (tokens ++ [.bare "\x7d"]) body.lexer (ended (palette body)).2.lexer := by
  intro body
  have hplain : Plain body.lexer := ⟨_, resumes_ofChars _⟩
  have hended : (ended (palette body)).1 = .ok () := by decide +kernel
  have hpalette : (ended (palette body)).2.image.palette = [⟨9, 255, 15⟩, ⟨1, 2, 3⟩] := by
    decide +kernel
  have hgrammar := (palette_grammar hplain rfl).1 (ended (palette body)).2
  obtain ⟨entries, tokens, hspelled, -, htrail, himage⟩ := hgrammar.1 <| by
    cases hresult : palette body with
    | ok _ after => rfl
    | error diagnostic after => simp [hresult, ended] at hended
  obtain rfl : entries = [⟨9, 255, 15⟩, ⟨1, 2, 3⟩] := by
    rw [← hpalette, himage]
  exact ⟨tokens, hspelled, htrail⟩

end ScriptedPng.Block
