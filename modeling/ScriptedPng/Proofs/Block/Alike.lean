import ScriptedPng.Proofs.Block.Change
import ScriptedPng.Proofs.Lexer.Pieces
import ScriptedPng.Proofs.Lockstep

/-!
# Bodies of blocks on two sources

Two sources that render the same pieces up to the end of a block lead its body to the same result:
to the same changes of the image, or to a failure with the same cause. The layouts of the sources
may differ, and so may what comes after the block, and whatever in the image the block leaves alone.

## Main definitions

* `Place`, `Place.after` — where in a source a piece stands.
* `Fits` — segments stand only where there are blocks of data.
* `Within` — two sequences of pieces are the same up to the end of the block.
* `Block.Met`, `Block.Agrees` — two bodies at the same place, and actions that go on alike.

## Main statements

* `Block.agrees_gamma`, `Block.agrees_chromaticities`, … — each body goes on alike.
-/

namespace ScriptedPng

/-! ## Places -/

/-- Where in a source a piece stands. -/
inductive Place where
  /-- Between blocks. -/
  | outside
  /-- After a keyword. -/
  | opening (data : Bool)
  /-- Among the tokens of a block. -/
  | inside
  /-- At a data segment. -/
  | segment
  /-- After a keyword whose block is not opened; what follows is of no account. -/
  | lost
deriving DecidableEq, Repr

namespace Place

/-- The token is a keyword of the blocks that hold data. -/
def IsData (text : String) (quoted : Bool) : Prop :=
  quoted = false ∧ (text = Block.Keyword.data.name ∨ text = Block.Keyword.pixels.name)

instance (text : String) (quoted : Bool) : Decidable (IsData text quoted) :=
  inferInstanceAs (Decidable (_ ∧ _))

/-- The place after a token. -/
def after (text : String) (quoted : Bool) : Place → Place
  | outside => opening (IsData text quoted)
  | opening data =>
    if quoted = false ∧ text = "\x7b" then if data then segment else inside else lost
  | inside => if quoted = false ∧ text = "\x7d" then outside else inside
  | segment => lost
  | lost => lost

end Place

/-- The pieces may stand at the place and after it: data segments stand in the blocks of data only,
and nothing else does. -/
inductive Fits : Place → List Piece → Prop
  | done {place : Place} (hplace : place ≠ .segment) : Fits place []
  | token {place : Place} {text : String} {quoted : Bool} {pieces : List Piece}
      (hplace : place ≠ .segment) (h : Fits (place.after text quoted) pieces) :
      Fits place (.token text quoted :: pieces)
  | segment {digits : List Char} {pieces : List Piece} (h : Fits .outside pieces) :
      Fits .segment (.segment digits :: pieces)
  | openSegment {digits : List Char} : Fits .segment [.openSegment digits]

/-- Both sequences of pieces are the same up to the end of the block, and related after it. The
block may be cut short by the end of the source. -/
inductive Within (rel : List Piece → List Piece → Prop) : Place → List Piece → List Piece → Prop
  | past {pieces pieces' : List Piece} (h : rel pieces pieces') : Within rel .outside pieces pieces'
  | done {place : Place} (houtside : place ≠ .outside) (hsegment : place ≠ .segment) :
      Within rel place [] []
  | token {place : Place} {text : String} {quoted : Bool} {pieces pieces' : List Piece}
      (houtside : place ≠ .outside) (hsegment : place ≠ .segment)
      (h : Within rel (place.after text quoted) pieces pieces') :
      Within rel place (.token text quoted :: pieces) (.token text quoted :: pieces')
  | segment {digits : List Char} {pieces pieces' : List Piece} (h : rel pieces pieces') :
      Within rel .segment (.segment digits :: pieces) (.segment digits :: pieces')
  | openSegment {digits : List Char} :
      Within rel .segment [.openSegment digits] [.openSegment digits]

/-- The sequences of pieces are the two given ones. -/
def ThesePieces (first second pieces pieces' : List Piece) : Prop :=
  pieces = first ∧ pieces' = second

/-- Both sequences of pieces are the same, and may stand between blocks. -/
def SamePieces (pieces pieces' : List Piece) : Prop :=
  pieces = pieces' ∧ Fits .outside pieces

theorem Within.related {rel : List Piece → List Piece → Prop} {pieces pieces' : List Piece}
    (h : Within rel .outside pieces pieces') : rel pieces pieces' := by
  cases h with
  | past h => exact h
  | done houtside | token houtside => exact absurd rfl houtside

theorem Fits.within {place : Place} {pieces : List Piece} (h : Fits place pieces) :
    Within SamePieces place pieces pieces := by
  induction h with
  | @done place hplace =>
    by_cases houtside : place = .outside
    · subst houtside
      exact .past ⟨rfl, .done hplace⟩
    · exact .done houtside hplace
  | @token place text quoted pieces hplace h ih =>
    by_cases houtside : place = .outside
    · subst houtside
      exact .past ⟨rfl, .token hplace h⟩
    · exact .token houtside hplace ih
  | segment h => exact .segment ⟨rfl, h⟩
  | openSegment => exact .openSegment

namespace Block

open Diagnostic

variable {rel : List Piece → List Piece → Prop} {R : Image → Image → Prop} {place place' : Place}
  {α β : Type}

/-- Two bodies stand at the same place of the same block, and their images are related. -/
structure Met (rel : List Piece → List Piece → Prop) (R : Image → Image → Prop) (place : Place)
    (body body' : Body) : Prop where
  shows : ∃ pieces pieces', Within rel place pieces pieces' ∧
    Lexer.Shows pieces body.lexer ∧ Lexer.Shows pieces' body'.lexer
  fault : body.lexer.source.fault = none
  fault' : body'.lexer.source.fault = none
  image : R body.image body'.image

/-- Both diagnostics have the same cause, and the images are related. -/
def SameCause (R : Image → Image → Prop) (diagnostic : Diagnostic) (body : Body)
    (diagnostic' : Diagnostic) (body' : Body) : Prop :=
  diagnostic.cause = diagnostic'.cause ∧ R body.image body'.image

/-- From one place to another, two actions go on alike. -/
abbrev Agrees (rel : List Piece → List Piece → Prop) (R : Image → Image → Prop)
    (place place' : Place) (related : α → α → Prop) (action action' : BodyM α) : Prop :=
  Agree (Met rel R place) (Met rel R place') (SameCause R) related action action'

/-! ## Parts of bodies -/

theorem agrees_fail (cause : Cause) {related : α → α → Prop} :
    Agrees rel R place place' related (fail cause) (fail cause) :=
  .throw fun _ _ h => ⟨rfl, h.image⟩

theorem agrees_failAt {token token' : Token} {cause cause' : Cause} {related : α → α → Prop}
    (h : cause = cause') :
    Agrees rel R place place' related (failAt token cause) (failAt token' cause') :=
  .throw fun _ _ hmet => ⟨h, hmet.image⟩

/-- Both images are changed in the same way. -/
theorem agrees_change {f : Image → Image} (h : ∀ image image', R image image' →
    R (f image) (f image')) : Agrees rel R place place Eq (change f) (change f) :=
  fun _ _ hmet => ⟨rfl, hmet.shows, hmet.fault, hmet.fault', h _ _ hmet.image⟩

theorem agrees_image : Agrees rel R place place R image image :=
  fun _ _ hmet => ⟨hmet.image, hmet⟩

/-- Both sources give the same token next, or none. -/
theorem alike_next {body body' : Body} (h : Met rel R place body body')
    (houtside : place ≠ .outside) (hsegment : place ≠ .segment) :
    Alike (fun found after found' after' =>
        found = none ∧ found' = none ∧ R after.image after'.image ∨
        ∃ token token', found = some token ∧ found' = some token' ∧
          token.content = token'.content ∧
          Met rel R (place.after token.text token.quoted) after after')
      (SameCause R) (read Lexer.next body) (read Lexer.next body') := by
  obtain ⟨⟨pieces, pieces', hwithin, hshows, hshows'⟩, hfault, hfault', himage⟩ := h
  cases hwithin with
  | past => exact absurd rfl houtside
  | segment | openSegment => exact absurd rfl hsegment
  | done =>
    refine (Alike.of_succeeds (succeeds_read (Lexer.succeeds_next_done hshows hfault))
      (succeeds_read (Lexer.succeeds_next_done hshows' hfault'))).mono_post ?_
    rintro _ after _ after' ⟨⟨heq, rfl, -⟩, heq', rfl, -⟩
    exact .inl ⟨rfl, rfl, by rwa [heq, heq']⟩
  | token _ _ hwithin =>
    refine (Alike.of_succeeds (succeeds_read (Lexer.succeeds_next_token hshows hfault))
      (succeeds_read (Lexer.succeeds_next_token hshows' hfault'))).mono_post ?_
    rintro _ after _ after'
      ⟨⟨heq, ⟨line, rfl⟩, hshows, hfault⟩, heq', ⟨line', rfl⟩, hshows', hfault'⟩
    exact .inr ⟨_, _, rfl, rfl, rfl, ⟨_, _, hwithin, hshows, hshows'⟩, hfault, hfault',
      by rwa [heq, heq']⟩

/-- What is done with the next token is alike for both sources, if it is when there is none. -/
theorem agrees_next {related : α → α → Prop} {next next' : Option Token → BodyM α}
    (houtside : place ≠ .outside) (hsegment : place ≠ .segment)
    (hnone : Agree (fun body body' => R body.image body'.image) (Met rel R place') (SameCause R)
      related (next none) (next' none))
    (hsome : ∀ token token' : Token, token.content = token'.content →
      Agrees rel R (place.after token.text token.quoted) place' related (next (some token))
        (next' (some token'))) :
    Agrees rel R place place' related (do next (← read Lexer.next))
      (do next' (← read Lexer.next)) := by
  intro body body' hmet
  refine (alike_next hmet houtside hsegment).bind ?_
  rintro found after found' after' (⟨rfl, rfl, himage⟩ | ⟨token, token', rfl, rfl, hsame, hafter⟩)
  · exact hnone after after' himage
  · exact hsome token token' hsame after after' hafter

/-! ## Tokens of bodies -/

theorem is_iff {token token' : Token} (h : token.content = token'.content) (text : String) :
    token.Is text ↔ token'.Is text := by
  obtain ⟨htext, hquoted⟩ := Prod.mk.inj h
  simp [Token.Is, htext, hquoted]

/-- Tokens other than the delimiter leave a block open. -/
theorem after_inside {token : Token} (h : ¬ token.Is "\x7d") :
    Place.inside.after token.text token.quoted = .inside :=
  if_neg h

theorem after_inside_close {token : Token} (h : token.Is "\x7d") :
    Place.inside.after token.text token.quoted = .outside :=
  if_pos h

/-- The lexer fails on both sources. -/
theorem agree_lexer_fail {before after : Body → Body → Prop} {related : α → α → Prop}
    (h : ∀ body body', before body body' → R body.image body'.image) (cause : Cause) :
    Agree before after (SameCause R) related (read (Lexer.fail cause)) (read (Lexer.fail cause)) :=
  fun body body' hbefore => .inl ⟨rfl, h body body' hbefore⟩

/-- A token that is required is there in both sources, or in none. -/
theorem agrees_require {text : String} (htext : text ≠ "\x7d") :
    Agrees rel R .inside .inside (fun _ _ => True) (read (Lexer.require text))
      (read (Lexer.require text)) := by
  unfold Lexer.require
  rw [read_bind]
  refine agrees_next (by simp) (by simp) (agree_lexer_fail (fun _ _ h => h) _) ?_
  intro token token' hsame
  have hiff := is_iff hsame text
  by_cases his : token.Is text
  · have hopen : ¬ token.Is "\x7d" := fun h => htext (his.2.symm.trans h.2)
    simp only [if_pos his, if_pos (hiff.1 his), after_inside hopen]
    exact .pure trivial
  · simp only [if_neg his, if_neg (mt hiff.2 his)]
    exact .throw fun _ _ h => ⟨congrArg Cause.unexpectedToken (Prod.mk.inj hsame).1, h.image⟩

/-- Each item of a body is found in both sources, up to the delimiter that closes the block. -/
theorem alike_inner {body body' : Body} (h : Met rel R .inside body body') :
    Alike (fun found after found' after' =>
        found = none ∧ found' = none ∧ Met rel R .outside after after' ∨
        ∃ token token', found = some token ∧ found' = some token' ∧
          token.content = token'.content ∧ Met rel R .inside after after')
      (SameCause R) (read Lexer.inner body) (read Lexer.inner body') := by
  unfold Lexer.inner
  rw [read_bind]
  refine (alike_next h (by simp) (by simp)).bind ?_
  rintro found after found' after' (⟨rfl, rfl, himage⟩ | ⟨token, token', rfl, rfl, hsame, hafter⟩)
  · exact .inl ⟨rfl, himage⟩
  · have hiff := is_iff hsame "\x7d"
    by_cases hclose : token.Is "\x7d"
    · rw [after_inside_close hclose] at hafter
      simp only [if_pos hclose, if_pos (hiff.1 hclose)]
      exact .inl ⟨rfl, rfl, hafter⟩
    · rw [after_inside hclose] at hafter
      simp only [if_neg hclose, if_neg (mt hiff.2 hclose)]
      exact .inr ⟨token, token', rfl, rfl, hsame, hafter⟩

/-- Bodies whose items are handled alike go on alike up to the end of the block. -/
theorem agrees_foldItems {handle : α → Token → BodyM α}
    {hforward : ∀ result token, Forward (handle result token)}
    (h : ∀ result token token', token.content = token'.content →
      Agrees rel R .inside .inside Eq (handle result token) (handle result token')) (result : α) :
    Agrees rel R .inside .outside Eq (foldItems handle hforward result)
      (foldItems handle hforward result) := by
  intro body body' hmet
  refine Lockstep.foldEach
    (fun result body result' body' => result = result' ∧ Met rel R .inside body body')
    (fun result token body result' token' body' => result = result' ∧
      token.content = token'.content ∧ Met rel R .inside body body') ⟨rfl, hmet⟩ ?_ ?_
    (fun _ _ _ h => h.elim) fun _ _ _ _ _ h => h.elim
  · rintro result body _ body' ⟨rfl, hmet⟩
    refine (alike_inner hmet).mono_post ?_
    rintro found after found' after' (⟨rfl, rfl, hafter⟩ | ⟨token, token', rfl, rfl, hsame, hafter⟩)
    · exact .inl ⟨rfl, rfl, rfl, hafter⟩
    · exact .inr ⟨token, token', rfl, rfl, rfl, hsame, hafter⟩
  · rintro result token body _ token' body' ⟨rfl, hsame, hmet⟩
    exact h result token token' hsame body body' hmet

theorem agrees_forEachItem {handle : Token → BodyM Unit}
    {hforward : ∀ token, Forward (handle token)}
    (h : ∀ token token', token.content = token'.content →
      Agrees rel R .inside .inside Eq (handle token) (handle token')) :
    Agrees rel R .inside .outside Eq (forEachItem handle hforward)
      (forEachItem handle hforward) := by
  have hfold : Agrees rel R .inside .outside Eq
      (foldItems (fun _ => handle) (fun _ => hforward) ())
      (foldItems (fun _ => handle) (fun _ => hforward) ()) :=
    agrees_foldItems (fun _ => h) ()
  exact hfold

theorem agrees_close (keyword : String) :
    Agrees rel R .inside .outside Eq (close keyword) (close keyword) := by
  refine agrees_next (by simp) (by simp) (.throw fun _ _ h => ⟨rfl, h⟩) ?_
  intro token token' hsame
  have hiff := is_iff hsame "\x7d"
  by_cases hclose : token.Is "\x7d"
  · simp only [if_pos hclose, if_pos (hiff.1 hclose), after_inside_close hclose]
    exact .pure rfl
  · simp only [if_neg hclose, if_neg (mt hiff.2 hclose)]
    exact agrees_failAt (congrArg (Cause.badToken · keyword) (Prod.mk.inj hsame).1)

/-! ## Constants -/

/-- Both are the same value, or diagnostics with the same cause. -/
inductive SameResult : Except Diagnostic α → Except Diagnostic α → Prop
  | ok (value : α) : SameResult (.ok value) (.ok value)
  | error {diagnostic diagnostic' : Diagnostic} (h : diagnostic.cause = diagnostic'.cause) :
      SameResult (.error diagnostic) (.error diagnostic')

/-- The value of a token is a matter of its text. Neither the end of the source nor the delimiter
that closes a block has one. -/
structure OfText (value : Option Token → Except Diagnostic α) : Prop where
  same : ∀ token token' : Token, token.text = token'.text →
    SameResult (value (some token)) (value (some token'))
  none : ∃ diagnostic, value none = .error diagnostic
  close : ∀ (token : Token) (result : α), value (some token) = .ok result → token.text ≠ "\x7d"

theorem not_parse_close (value : Nat) : IntegerConstant.parse "\x7d" ≠ .ok value := by
  have hmalformed : IntegerConstant.parse "\x7d" = .error .malformed := rfl
  rw [hmalformed]
  simp

theorem parse?_close : DoubleConstant.parse? "\x7d" = none := by decide

theorem ofText_integer (kind : Constant) (limit : Nat) : OfText (integer kind limit) where
  same := by
    rintro ⟨text, line, quoted⟩ ⟨_, line', quoted'⟩ ⟨⟩
    simp only [integer]
    cases IntegerConstant.parse text with
    | error => exact .error rfl
    | ok value =>
      dsimp only
      split
      · exact .error rfl
      · exact .ok value
  none := ⟨_, rfl⟩
  close := by
    rintro ⟨text, line, quoted⟩ result hresult rfl
    simp only [integer] at hresult
    split at hresult
    · cases hresult
    · rename_i hparse
      exact not_parse_close _ hparse

theorem ofText_double : OfText double where
  same := by
    rintro ⟨text, line, quoted⟩ ⟨_, line', quoted'⟩ ⟨⟩
    simp only [double]
    cases DoubleConstant.parse? text with
    | none => exact .error rfl
    | some value =>
      dsimp only
      split
      · exact .ok value
      · exact .error rfl
  none := ⟨_, rfl⟩
  close := by
    rintro ⟨text, line, quoted⟩ result hresult rfl
    simp [double, parse?_close] at hresult

/-- Both tokens have the same value, and do not close the block, or neither has one. -/
theorem agrees_value {value : Option Token → Except Diagnostic α} (h : OfText value)
    {token token' : Token} (hsame : token.content = token'.content) :
    Agrees rel R (Place.inside.after token.text token.quoted) .inside Eq (lift (value (some token)))
      (lift (value (some token'))) := by
  have hvalue := h.same _ _ (Prod.mk.inj hsame).1
  generalize value (some token') = result' at hvalue ⊢
  cases hresult : value (some token) <;> rw [hresult] at hvalue
  · cases hvalue with
    | error hcause => exact .throw fun _ _ hmet => ⟨hcause, hmet.image⟩
  · have hopen : ¬ token.Is "\x7d" := fun his => h.close _ _ hresult his.2
    rw [after_inside hopen]
    cases hvalue with
    | ok => exact .pure rfl

/-- A constant is the same in both sources, and does not close the block. -/
theorem agrees_readConstant {value : Option Token → Except Diagnostic α} (h : OfText value) :
    Agrees rel R .inside .inside Eq (readConstant value) (readConstant value) := by
  refine agrees_next (by simp) (by simp) ?_ fun token token' => agrees_value h
  obtain ⟨diagnostic, hnone⟩ := h.none
  rw [hnone]
  exact .throw fun _ _ himage => ⟨rfl, himage⟩

theorem agrees_long : Agrees rel R .inside .inside Eq (readConstant long) (readConstant long) :=
  agrees_readConstant (ofText_integer _ _)

theorem agrees_byte : Agrees rel R .inside .inside Eq (readConstant byte) (readConstant byte) :=
  agrees_readConstant (ofText_integer _ _)

theorem agrees_double :
    Agrees rel R .inside .inside Eq (readConstant double) (readConstant double) :=
  agrees_readConstant ofText_double

/-! ## Bodies -/

/-- The images stay related when both are changed by the same step of a block. -/
def Respects (R : Image → Image → Prop) (f : Image → Image) : Prop :=
  ∀ image image', R image image' → R (f image) (f image')

theorem respects_eq (f : Image → Image) : Respects Eq f :=
  fun _ _ => congrArg f

theorem agrees_gamma (hvalue : ∀ value : Double, Respects R ({ · with gamma := value }))
    (hgiven : Respects R fun image => { image with given := { image.given with gamma := true } }) :
    Agrees rel R .inside .outside Eq gamma gamma :=
  .bind_eq agrees_double fun value => .bind_eq (agrees_change (hvalue value)) fun _ =>
    .bind_eq (agrees_close _) fun _ => agrees_change hgiven

theorem agrees_readCoordinates : Agrees rel R .inside .inside Eq Chromaticities.readCoordinates
    Chromaticities.readCoordinates :=
  .bind (agrees_require (by decide)) fun _ _ _ => .bind_eq agrees_double fun _ =>
    .bind (agrees_require (by decide)) fun _ _ _ => .bind_eq agrees_double fun _ =>
    .bind (agrees_require (by decide)) fun _ _ _ => .pure rfl

theorem agrees_readPoint
    (hpoint : ∀ which point, Respects R fun image =>
      { image with chromaticities := image.chromaticities.set which point })
    (given : List Primary) {token token' : Token} (h : token.content = token'.content) :
    Agrees rel R .inside .inside Eq (Chromaticities.readPoint given token)
      (Chromaticities.readPoint given token') := by
  have hsame : Chromaticities.primary? token = Chromaticities.primary? token' := by
    obtain ⟨htext, hquoted⟩ := Prod.mk.inj h
    rw [Chromaticities.primary?, Chromaticities.primary?, htext, hquoted]
  unfold Chromaticities.readPoint
  rw [hsame]
  cases Chromaticities.primary? token' with
  | none => exact agrees_failAt rfl
  | some primary =>
    exact .bind_eq agrees_readCoordinates fun point =>
      .bind_eq (agrees_change (hpoint primary point)) fun _ => .pure rfl

theorem agrees_chromaticities
    (hpoint : ∀ which point, Respects R fun image =>
      { image with chromaticities := image.chromaticities.set which point })
    (hgiven : Respects R fun image =>
      { image with given := { image.given with chromaticities := true } }) :
    Agrees rel R .inside .outside Eq chromaticities chromaticities :=
  .bind_eq (agrees_foldItems (fun given _ _ h => agrees_readPoint hpoint given h) _) fun _ =>
    .ite Iff.rfl (fun _ => agrees_change hgiven) fun _ => agrees_fail _

theorem agrees_readIntent : Agrees rel R .inside .inside Eq readIntent readIntent := by
  refine agrees_next (by simp) (by simp) (fun _ _ himage => .inl ⟨rfl, himage⟩) ?_
  intro token token' hsame
  refine .bind_eq (agrees_value (ofText_integer _ _) hsame) fun intent => ?_
  exact .ite Iff.rfl (fun _ => .pure rfl) fun _ => .throw fun _ _ h => ⟨rfl, h.image⟩

theorem agrees_intent : Agrees rel Eq .inside .outside Eq intent intent :=
  .bind_eq agrees_readIntent fun _ => .bind_eq (agrees_close _) fun _ =>
    agrees_change (respects_eq _)

theorem agrees_setting {token token' : Token} (h : token.content = token'.content) :
    Agrees rel R .inside .inside Eq (Header.setting token) (Header.setting token') := by
  have hlong (f : Nat → Header.Setting) : Agrees rel R .inside .inside Eq
      (f <$> readConstant long) (f <$> readConstant long) :=
    .map (fun body body' hmet => (agrees_long body body' hmet).mono_post
      fun _ _ _ _ h => ⟨congrArg f h.1, h.2⟩)
  have hbyte : Agrees rel R .inside .inside Eq
      (Header.Setting.bitDepth <$> readConstant byte)
      (Header.Setting.bitDepth <$> readConstant byte) :=
    .map (fun body body' hmet => (agrees_byte body body' hmet).mono_post
      fun _ _ _ _ h => ⟨congrArg Header.Setting.bitDepth h.1, h.2⟩)
  refine .ite (is_iff h _) (fun _ => hlong _) fun _ => .ite (is_iff h _) (fun _ => hlong _)
    fun _ => .ite (is_iff h _) (fun _ => hbyte) fun _ => ?_
  -- The other settings are words without a value.
  exact .ite (or_congr (is_iff h _) (is_iff h _)) (fun _ => .pure rfl) fun _ =>
    .ite (is_iff h _) (fun _ => .pure rfl) fun _ => .ite (is_iff h _) (fun _ => .pure rfl) fun _ =>
    .ite (is_iff h _) (fun _ => .pure rfl) fun _ => .ite (is_iff h _) (fun _ => .pure rfl) fun _ =>
    agrees_failAt (congrArg (Cause.badToken · _) (Prod.mk.inj h).1)

theorem agrees_readSetting {token token' : Token} (h : token.content = token'.content) :
    Agrees rel Eq .inside .inside Eq (Header.readSetting token) (Header.readSetting token') :=
  .bind_eq (agrees_setting h) fun _ => agrees_change (respects_eq _)

theorem agrees_header : Agrees rel Eq .inside .outside Eq header header :=
  .bind_eq (agrees_change (respects_eq _)) fun _ =>
    .bind_eq (agrees_forEachItem fun _ _ h => agrees_readSetting h) fun _ =>
    .bind_eq agrees_image fun _ => .ite Iff.rfl (fun _ => agrees_fail _) fun _ =>
    .ite Iff.rfl (fun _ => agrees_fail _) fun _ => .pure rfl

theorem agrees_readColors :
    Agrees rel R .inside .inside Eq Palette.readColors Palette.readColors :=
  .bind_eq agrees_byte fun _ => .bind (agrees_require (by decide)) fun _ _ _ =>
    .bind_eq agrees_byte fun _ => .bind (agrees_require (by decide)) fun _ _ _ =>
    .bind_eq agrees_byte fun _ => .bind (agrees_require (by decide)) fun _ _ _ => .pure rfl

theorem agrees_readEntry {token token' : Token} (h : token.content = token'.content) :
    Agrees rel Eq .inside .inside Eq (Palette.readEntry token) (Palette.readEntry token') :=
  .ite (is_iff h _)
    (fun _ => .bind_eq agrees_image fun _ => .ite Iff.rfl (fun _ => agrees_failAt rfl) fun _ =>
      .bind_eq agrees_readColors fun _ => agrees_change (respects_eq _))
    fun _ => agrees_failAt rfl

theorem agrees_palette : Agrees rel Eq .inside .outside Eq palette palette :=
  .bind_eq (agrees_forEachItem fun _ _ h => agrees_readEntry h) fun _ =>
    agrees_change (respects_eq _)

/-! ## Data segments -/

/-- The octets of a data segment are the same in both sources. -/
theorem agrees_collect (alphabet : Segment.Alphabet) :
    Agrees rel R .segment .outside Eq (read (Lexer.collect alphabet))
      (read (Lexer.collect alphabet)) := by
  rintro body body' ⟨⟨pieces, pieces', hwithin, hshows, hshows'⟩, hfault, hfault', himage⟩
  cases hwithin with
  | done _ hsegment | token _ hsegment => exact absurd rfl hsegment
  | segment hrel =>
    have hread := outcome_read (Lexer.outcome_collect_segment alphabet hshows)
    have hread' := outcome_read (Lexer.outcome_collect_segment alphabet hshows')
    cases hresult : read (Lexer.collect alphabet) body <;>
      cases hresult' : read (Lexer.collect alphabet) body' <;>
      rw [hresult] at hread <;> rw [hresult'] at hread'
    case ok.ok =>
      obtain ⟨heq, hoctets, hafter, hsame⟩ := hread
      obtain ⟨heq', hoctets', hafter', hsame'⟩ := hread'
      exact ⟨Except.ok.inj (hoctets.symm.trans hoctets'),
        ⟨_, _, .past hrel, hafter, hafter'⟩, hsame.trans hfault, hsame'.trans hfault',
        by rwa [heq, heq']⟩
    case ok.error => cases hread.2.1.symm.trans hread'.2
    case error.ok => cases hread'.2.1.symm.trans hread.2
    case error.error =>
      exact .inl ⟨Except.error.inj (hread.2.symm.trans hread'.2), by rwa [hread.1, hread'.1]⟩
  | openSegment =>
    have hread := outcome_read (Lexer.outcome_collect_open alphabet hshows hfault)
    have hread' := outcome_read (Lexer.outcome_collect_open alphabet hshows' hfault')
    cases hresult : read (Lexer.collect alphabet) body <;>
      cases hresult' : read (Lexer.collect alphabet) body' <;>
      rw [hresult] at hread <;> rw [hresult'] at hread'
    case error.error =>
      exact .inl ⟨hread.2.trans hread'.2.symm, by rwa [hread.1, hread'.1]⟩
    all_goals first | exact hread.2.elim | exact hread'.2.elim

end Block

end ScriptedPng
