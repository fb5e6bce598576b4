import ScriptedPng.Proofs.Block.Change
import ScriptedPng.Proofs.Block.Content
import ScriptedPng.Proofs.Lexer.Trail

/-!
# Bodies tell what blocks say

Whatever the source is, a body that is read without a failure has been in front of the pieces of a
content, and has added this content to the description of the image.

## Main definitions

* `Block.Went` — a body has gone over pieces, and its image has been changed.
* `Block.Tells` — an action succeeds only if it goes over certain pieces; the image stays as it is.

## Main statements

* `Block.tells_readConstant`, `Block.tells_setting`, … — the parts of bodies.
* `Block.outcome_foldItems_went` — the items of a body are spelled one after the other.
* `Block.outcome_reader_went` — the body of a block that is read tells a content.
-/

namespace ScriptedPng.Block

open Diagnostic

variable {α β : Type} {spelled : α → List Piece → Prop} {goal : β → List Piece → Prop}

/-- A body has gone over the pieces, and its image has been changed by the function. -/
structure Went (pieces : List Piece) (f : Image → Image) (before after : Body) : Prop where
  plain : Lexer.Plain after.lexer
  image_eq : after.image = f before.image
  trail : Lexer.Trail pieces before.lexer after.lexer

namespace Went

variable {before middle after : Body} {pieces more : List Piece} {f g : Image → Image}

theorem refl (h : Lexer.Plain before.lexer) : Went [] id before before :=
  ⟨h, rfl, .nil⟩

theorem trans (h : Went pieces f before middle) (h' : Went more g middle after) :
    Went (pieces ++ more) (fun image => g (f image)) before after where
  plain := h'.plain
  image_eq := by rw [h'.image_eq, h.image_eq]
  trail := h.trail.trans h'.trail

theorem change (h : Lexer.Plain before.lexer) :
    Went [] f before { before with image := f before.image } :=
  ⟨h, rfl, .nil⟩

end Went

/-- If the action succeeds, it has gone over pieces that spell its value; the image stays as it is.
-/
def Tells (spelled : α → List Piece → Prop) (action : BodyM α) : Prop :=
  ∀ body, Lexer.Plain body.lexer →
    Outcome (fun value after => ∃ pieces, spelled value pieces ∧ Went pieces id body after)
      (fun _ _ => True) (action body)

namespace Tells

theorem pure {value : α} (h : spelled value []) : Tells spelled (Pure.pure value) :=
  fun _ hplain => ⟨[], h, .refl hplain⟩

theorem throw (diagnostic : Diagnostic) : Tells spelled (MonadExcept.throw diagnostic) :=
  fun _ _ => trivial

theorem mono {spelled' : α → List Piece → Prop} {action : BodyM α} (h : Tells spelled action)
    (himp : ∀ value pieces, spelled value pieces → spelled' value pieces) :
    Tells spelled' action := by
  intro body hplain
  refine (h body hplain).mono_post ?_
  rintro value after ⟨pieces, hspelled, hwent⟩
  exact ⟨pieces, himp value pieces hspelled, hwent⟩

/-- What comes next is spelled behind. -/
theorem bind {action : BodyM α} {next : α → BodyM β} (h : Tells spelled action)
    (hnext : ∀ value front, spelled value front →
      Tells (fun result back => goal result (front ++ back)) (next value)) :
    Tells goal (action >>= next) := by
  intro body hplain
  refine .bind (h body hplain) ?_
  rintro value middle ⟨front, hfront, hwent⟩
  refine (hnext value front hfront middle hwent.plain).mono_post ?_
  rintro result after ⟨back, hback, hwent'⟩
  exact ⟨front ++ back, hback, hwent.trans hwent'⟩

theorem map {action : BodyM α} {f : α → β}
    (h : Tells (fun value pieces => goal (f value) pieces) action) : Tells goal (f <$> action) :=
  fun body hplain => .map (h body hplain)

theorem ite {condition : Prop} [Decidable condition] {yes no : BodyM α}
    (hyes : condition → Tells spelled yes) (hno : ¬ condition → Tells spelled no) :
    Tells spelled (if condition then yes else no) := by
  split
  · exact hyes ‹_›
  · exact hno ‹_›

end Tells

/-! ## Parts of bodies -/

/-- The next token is spelled in front of the rest, unless there is none. -/
theorem tells_next {next : Option Token → BodyM α}
    (hnone : ∀ body, Outcome (fun _ _ => False) (fun _ _ => True) (next none body))
    (hsome : ∀ token : Token,
      Tells (fun value back => spelled value (token.piece :: back)) (next (some token))) :
    Tells spelled (do next (← read Lexer.next)) := by
  intro body hplain
  refine .bind ((outcome_read (Lexer.outcome_next_trail hplain)).mono_fault
    fun _ _ _ => trivial) ?_
  rintro (_ | token) middle ⟨himage, hafter, htrail⟩
  · exact (hnone middle).mono (fun _ _ h => h.elim) fun _ _ h => h
  · refine (hsome token middle hafter).mono_post ?_
    rintro value after ⟨back, hback, hwent⟩
    have htoken : Went [token.piece] id body middle := ⟨hafter, himage, htrail token rfl⟩
    exact ⟨token.piece :: back, hback, htoken.trans hwent⟩

/-- A token that is a given word or punctuation character. -/
theorem piece_eq {token : Token} {text : String} (h : token.Is text) :
    token.piece = .bare text := by
  rw [Token.piece, Piece.bare, h.1, h.2]

/-- A token that is required is found. -/
theorem tells_require (text : String) :
    Tells (fun _ pieces => pieces = [.bare text]) (read (Lexer.require text)) := by
  unfold Lexer.require
  rw [read_bind]
  refine tells_next (fun _ => trivial) fun token => ?_
  by_cases his : token.Is text
  · simp only [if_pos his, piece_eq his]
    exact .pure rfl
  · simp only [if_neg his]
    exact fun _ _ => trivial

/-- The delimiter that closes a block. -/
theorem tells_close (keyword : String) :
    Tells (fun _ pieces => pieces = [.bare "\x7d"]) (close keyword) := by
  refine tells_next (fun _ => trivial) fun token => .ite (fun his => ?_) fun _ => .throw _
  rw [piece_eq his]
  exact .pure rfl

theorem isInteger_of_integer {kind : Constant} {limit value : Nat} {token : Token}
    (h : integer kind limit (some token) = .ok value) : IsInteger limit token.text value := by
  refine ⟨?_, le_of_integer h⟩
  simp only [integer] at h
  split at h
  · cases h
  · rename_i hparse
    split at h <;> cases h
    exact hparse

theorem isDouble_of_double {value : Double} {token : Token} (h : double (some token) = .ok value) :
    IsDouble token.text value := by
  simp only [double] at h
  split at h
  · cases h
  · rename_i hparse
    split at h <;> cases h
    exact ⟨hparse, ‹_›⟩

/-- A token with a text that has the property, which may be quoted. -/
def OneText (property : String → Prop) (pieces : List Piece) : Prop :=
  ∃ text quoted, property text ∧ pieces = [.token text quoted]

/-- A constant is read from one token. -/
theorem tells_readConstant {value : Option Token → Except Diagnostic α} {Is : String → α → Prop}
    (hnone : ∃ diagnostic, value none = .error diagnostic)
    (hsome : ∀ (token : Token) (found : α), value (some token) = .ok found → Is token.text found) :
    Tells (fun found => OneText (Is · found)) (readConstant value) := by
  refine tells_next (fun _ => ?_) fun token => ?_
  · obtain ⟨diagnostic, hnone⟩ := hnone
    rw [hnone]
    trivial
  · cases hvalue : value (some token) with
    | error diagnostic => exact .throw _
    | ok found => exact .pure ⟨_, _, hsome token found hvalue, rfl⟩

theorem tells_integer (kind : Constant) (limit : Nat) :
    Tells (fun value => OneText (IsInteger limit · value)) (readConstant (integer kind limit)) :=
  tells_readConstant ⟨_, rfl⟩ fun _ _ => isInteger_of_integer

theorem tells_double :
    Tells (fun value => OneText (IsDouble · value)) (readConstant double) :=
  tells_readConstant ⟨_, rfl⟩ fun _ _ => isDouble_of_double

/-- The number of a rendering intent. -/
theorem tells_readIntent :
    Tells (fun number pieces => number < intentCount ∧
      OneText (IsInteger byteLimit · number) pieces) readIntent := by
  refine tells_next (fun _ => trivial) fun token => ?_
  cases hvalue : byte (some token) with
  | error diagnostic => exact .throw _
  | ok number =>
    refine .ite (fun hlt => .pure ⟨hlt, _, _, isInteger_of_integer hvalue, rfl⟩) fun _ => .throw _

/-- The octets of a data segment. -/
theorem tells_collect (alphabet : Segment.Alphabet) :
    Tells (fun octets pieces => ∃ digits,
      Segment.decode alphabet (String.ofList digits) = .ok octets ∧ pieces = [.segment digits])
      (read (Lexer.collect alphabet)) := by
  intro body hplain
  refine (outcome_read (Lexer.outcome_collect_trail alphabet hplain)).mono ?_ fun _ _ _ => trivial
  rintro octets after ⟨himage, hafter, digits, hoctets, htrail⟩
  exact ⟨_, ⟨digits, (Segment.decode_eq _ _).trans hoctets, rfl⟩, hafter, himage, htrail⟩

/-! ## Items -/

/-- A setting of a header is read from its tokens. -/
theorem tells_setting (token : Token) :
    Tells (fun setting pieces => setting.Spelled (token.piece :: pieces))
      (Header.setting token) := by
  refine .ite (fun his => ?_) fun _ => .ite (fun his => ?_) fun _ => .ite (fun his => ?_) fun _ =>
    .ite (fun his => .pure ?_) fun _ => .ite (fun his => .pure ?_) fun _ =>
    .ite (fun his => .pure ?_) fun _ => .ite (fun his => .pure ?_) fun _ =>
    .ite (fun his => .pure ?_) fun _ => .throw _
  · refine .map ((tells_integer _ _).mono ?_)
    rintro value _ ⟨text, quoted, hvalue, rfl⟩
    rw [piece_eq his]
    exact .height hvalue
  · refine .map ((tells_integer _ _).mono ?_)
    rintro value _ ⟨text, quoted, hvalue, rfl⟩
    rw [piece_eq his]
    exact .width hvalue
  · refine .map ((tells_integer _ _).mono ?_)
    rintro value _ ⟨text, quoted, hvalue, rfl⟩
    rw [piece_eq his]
    exact .bitDepth hvalue
  · rcases his with his | his <;> rw [piece_eq his]
    · exact .filler (.inl rfl)
    · exact .filler (.inr rfl)
  · exact piece_eq his ▸ .palette
  · exact piece_eq his ▸ .color
  · exact piece_eq his ▸ .alpha
  · exact piece_eq his ▸ .interlace

/-- The colors of an entry are read up to the parenthesis that closes it. -/
theorem tells_readColors :
    Tells (fun entry pieces => Palette.Spelled entry (.bare "(" :: pieces)) Palette.readColors := by
  refine .bind (tells_integer _ _) ?_
  rintro red _ ⟨text, quoted, hred, rfl⟩
  refine .bind (tells_require _) ?_
  rintro _ _ rfl
  refine .bind (tells_integer _ _) ?_
  rintro green _ ⟨text', quoted', hgreen, rfl⟩
  refine .bind (tells_require _) ?_
  rintro _ _ rfl
  refine .bind (tells_integer _ _) ?_
  rintro blue _ ⟨text'', quoted'', hblue, rfl⟩
  refine .bind (tells_require _) ?_
  rintro _ _ rfl
  exact .pure (.entry hred hgreen hblue)

/-- The coordinates of a point are read up to the parenthesis that closes them. -/
theorem tells_readCoordinates (which : Primary) :
    Tells (fun point pieces => Chromaticities.Spelled (which, point) (.bare which.name :: pieces))
      Chromaticities.readCoordinates := by
  refine .bind (tells_require _) ?_
  rintro _ _ rfl
  refine .bind tells_double ?_
  rintro x _ ⟨text, quoted, hx, rfl⟩
  refine .bind (tells_require _) ?_
  rintro _ _ rfl
  refine .bind tells_double ?_
  rintro y _ ⟨text', quoted', hy, rfl⟩
  refine .bind (tells_require _) ?_
  rintro _ _ rfl
  exact .pure (.point hx hy)

/-! ## Loops over items -/

/-- Each item of a body starts with a token, and the delimiter ends them. -/
theorem outcome_inner_went {body : Body} (hplain : Lexer.Plain body.lexer) :
    Outcome (fun found after =>
        found = none ∧ Went [.bare "\x7d"] id body after ∨
        ∃ token, found = some token ∧ Went [token.piece] id body after)
      (fun _ _ => True) (read Lexer.inner body) := by
  unfold Lexer.inner
  rw [read_bind]
  refine .bind ((outcome_read (Lexer.outcome_next_trail hplain)).mono_fault
    fun _ _ _ => trivial) ?_
  rintro (_ | token) after ⟨himage, hafter, htrail⟩
  · trivial
  have hwent : Went [token.piece] id body after := ⟨hafter, himage, htrail token rfl⟩
  by_cases hclose : token.Is "\x7d"
  · simp only [if_pos hclose]
    exact .inl ⟨rfl, piece_eq hclose ▸ hwent⟩
  · simp only [if_neg hclose]
    exact .inr ⟨token, rfl, hwent⟩

/-- Items that are spelled one by one are spelled one after the other, up to the delimiter. Each one
goes into the result, and changes the image. -/
theorem outcome_foldItems_went {item : Type} {spelled : item → List Piece → Prop}
    {add : α → item → α} {apply : Image → item → Image} {handle : α → Token → BodyM α}
    (hforward : ∀ result token, Forward (handle result token))
    (hhandle : ∀ result token body, Lexer.Plain body.lexer →
      Outcome (fun value after => ∃ found more, spelled found (token.piece :: more) ∧
          value = add result found ∧ Went more (apply · found) body after)
        (fun _ _ => True) (handle result token body))
    (result : α) {body : Body} (hplain : Lexer.Plain body.lexer) :
    Outcome (fun value after => ∃ items inner, Items spelled items inner ∧
        value = items.foldl add result ∧
        Went (inner ++ [.bare "\x7d"]) (fun image => items.foldl apply image) body after)
      (fun _ _ => True) (foldItems handle hforward result body) := by
  -- What has been handled so far carries the loop.
  let handled (value : α) (state : Body) (items : List item) (inner : List Piece) : Prop :=
    Items spelled items inner ∧ value = items.foldl add result ∧
      Went inner (fun image => items.foldl apply image) body state
  refine Outcome.foldEach (fun value state => ∃ items inner, handled value state items inner)
    (fun value token state => ∃ items inner middle, handled value middle items inner ∧
      Went [token.piece] id middle state) ⟨[], [], .nil, rfl, .refl hplain⟩ ?_ ?_
  · rintro value state ⟨items, inner, hitems, hvalue, hwent⟩
    refine (outcome_inner_went hwent.plain).mono_post ?_
    rintro _ after (⟨rfl, hclose⟩ | ⟨token, rfl, htoken⟩)
    · exact ⟨items, inner, hitems, hvalue, hwent.trans hclose⟩
    · exact ⟨items, inner, state, ⟨hitems, hvalue, hwent⟩, htoken⟩
  · rintro value token state ⟨items, inner, middle, ⟨hitems, rfl, hwent⟩, htoken⟩
    refine (hhandle _ token state htoken.plain).mono_post ?_
    rintro _ after ⟨found, more, hfound, rfl, hmore⟩
    refine ⟨items ++ [found], inner ++ token.piece :: more, hitems.concat hfound, by simp, ?_⟩
    have hall := hwent.trans (htoken.trans hmore)
    simpa using hall

theorem outcome_forEachItem_went {item : Type} {spelled : item → List Piece → Prop}
    {apply : Image → item → Image} {handle : Token → BodyM Unit}
    {hforward : ∀ token, Forward (handle token)}
    (hhandle : ∀ token body, Lexer.Plain body.lexer →
      Outcome (fun _ after => ∃ found more, spelled found (token.piece :: more) ∧
          Went more (apply · found) body after)
        (fun _ _ => True) (handle token body))
    {body : Body} (hplain : Lexer.Plain body.lexer) :
    Outcome (fun _ after => ∃ items inner, Items spelled items inner ∧
        Went (inner ++ [.bare "\x7d"]) (fun image => items.foldl apply image) body after)
      (fun _ _ => True) (forEachItem handle hforward body) := by
  have hfold : Outcome (fun value after => ∃ items inner, Items spelled items inner ∧
        value = items.foldl (fun _ _ => ()) () ∧
        Went (inner ++ [.bare "\x7d"]) (fun image => items.foldl apply image) body after)
      (fun _ _ => True) (foldItems (fun _ => handle) (fun _ => hforward) () body) := by
    refine outcome_foldItems_went _ (fun _ token state hstate => ?_) () hplain
    refine (hhandle token state hstate).mono_post ?_
    rintro _ after ⟨found, more, hfound, hwent⟩
    exact ⟨found, more, hfound, rfl, hwent⟩
  refine hfold.mono_post ?_
  rintro _ after ⟨items, inner, hitems, -, hwent⟩
  exact ⟨items, inner, hitems, hwent⟩

/-! ## Bodies -/

/-- A body has been read to the end: it tells a content of its block. -/
def Told (keyword : Keyword) (body after : Body) : Prop :=
  ∃ block : Content, ∃ more, block.keyword = keyword ∧
    block.Spelled (.bare keyword.name :: .bare "\x7b" :: more) ∧
    Went more (Content.apply · block) body after

variable {body : Body}

theorem outcome_gamma_told (hplain : Lexer.Plain body.lexer) :
    Outcome (fun _ after => Told .gamma body after) (fun _ _ => True) (gamma body) := by
  refine .bind (tells_double body hplain) ?_
  rintro value middle ⟨_, ⟨text, quoted, hvalue, rfl⟩, hwent⟩
  have hchange : Outcome (fun _ after => Went [] ({ · with gamma := value }) middle after)
      (fun _ _ => True) (change ({ · with gamma := value }) middle) := Went.change hwent.plain
  refine .bind hchange fun _ changed hchanged => ?_
  refine .bind (tells_close Keyword.gamma.name changed hchanged.plain) ?_
  rintro _ closed ⟨_, rfl, hclosed⟩
  have hgiven := Went.change (f := fun image =>
    { image with given := { image.given with gamma := true } }) hclosed.plain
  exact ⟨.gamma value, _, rfl, .gamma hvalue,
    hwent.trans (hchanged.trans (hclosed.trans hgiven))⟩

theorem outcome_intent_told (hplain : Lexer.Plain body.lexer) :
    Outcome (fun _ after => Told .intent body after) (fun _ _ => True) (intent body) := by
  refine .bind (tells_readIntent body hplain) ?_
  rintro number middle ⟨_, ⟨hlt, text, quoted, hnumber, rfl⟩, hwent⟩
  refine .bind (tells_close Keyword.intent.name middle hwent.plain) ?_
  rintro _ closed ⟨_, rfl, hclosed⟩
  have hchange := Went.change (f := inStandardSpace number) hclosed.plain
  exact ⟨.intent number, _, rfl, .intent hnumber hlt, hwent.trans (hclosed.trans hchange)⟩

/-- A setting is applied to the image. -/
theorem outcome_readSetting_went (token : Token) (hplain : Lexer.Plain body.lexer) :
    Outcome (fun _ after => ∃ setting more, setting.Spelled (token.piece :: more) ∧
        Went more (Header.Setting.apply · setting) body after)
      (fun _ _ => True) (Header.readSetting token body) := by
  refine .bind (tells_setting token body hplain) ?_
  rintro setting middle ⟨more, hsetting, hwent⟩
  have hchange := Went.change (f := (Header.Setting.apply · setting)) hwent.plain
  have hall := hwent.trans hchange
  rw [List.append_nil] at hall
  exact ⟨setting, more, hsetting, hall⟩

/-- Looking at the image leaves the body as it is. -/
theorem outcome_image (body : Body) :
    Outcome (fun found after => found = body.image ∧ after = body) (fun _ _ => False)
      (image body) :=
  ⟨rfl, rfl⟩

theorem outcome_checkSize (body : Body) :
    Outcome (fun _ after => after = body) (fun _ _ => True) (Header.checkSize body) := by
  refine .bind ((outcome_image body).mono_fault fun _ _ h => h.elim) ?_
  rintro _ _ ⟨rfl, rfl⟩
  exact .ite (fun _ => trivial) fun _ => .ite (fun _ => trivial) fun _ => .pure rfl

theorem outcome_header_told (hplain : Lexer.Plain body.lexer) :
    Outcome (fun _ after => Told .header body after) (fun _ _ => True) (header body) := by
  have hreset : Outcome (fun _ after => Went [] Header.reset body after) (fun _ _ => True)
      (change Header.reset body) := Went.change hplain
  refine .bind hreset fun _ reset hreset => ?_
  refine .bind (outcome_forEachItem_went (fun token _ => outcome_readSetting_went token)
    hreset.plain) ?_
  rintro _ middle ⟨settings, inner, hsettings, hwent⟩
  refine (outcome_checkSize middle).mono_post ?_
  rintro _ _ rfl
  exact ⟨.header settings, _, rfl, .header hsettings, hreset.trans hwent⟩

/-- An entry is appended to the palette. -/
theorem outcome_readEntry_went (token : Token) (hplain : Lexer.Plain body.lexer) :
    Outcome (fun _ after => ∃ entry more, Palette.Spelled entry (token.piece :: more) ∧
        Went more (fun image => { image with palette := image.palette ++ [entry] }) body after)
      (fun _ _ => True) (Palette.readEntry token body) := by
  refine .ite (fun his => ?_) fun _ => trivial
  refine .bind ((outcome_image body).mono_fault fun _ _ h => h.elim) ?_
  rintro _ _ ⟨rfl, rfl⟩
  refine .ite (fun _ => trivial) fun _ => ?_
  refine .bind (tells_readColors _ hplain) ?_
  rintro entry middle ⟨more, hentry, hwent⟩
  have hchange := Went.change
    (f := fun image => { image with palette := image.palette ++ [entry] }) hwent.plain
  have hall := hwent.trans hchange
  rw [List.append_nil] at hall
  exact ⟨entry, more, piece_eq his ▸ hentry, hall⟩

theorem foldl_entries (entries : List Rgb) (image : Image) :
    entries.foldl (fun image entry => { image with palette := image.palette ++ [entry] }) image =
      { image with palette := image.palette ++ entries } := by
  induction entries generalizing image with
  | nil => simp
  | cons entry entries ih => simp [ih]

theorem outcome_palette_told (hplain : Lexer.Plain body.lexer) :
    Outcome (fun _ after => Told .palette body after) (fun _ _ => True) (palette body) := by
  refine .bind (outcome_forEachItem_went (fun token _ => outcome_readEntry_went token) hplain) ?_
  rintro _ middle ⟨entries, inner, hentries, hwent⟩
  have hgiven := Went.change (f := fun image =>
    { image with given := { image.given with palette := true } }) hwent.plain
  have hall := hwent.trans hgiven
  simp only [foldl_entries, List.append_nil] at hall
  exact ⟨.palette entries, _, rfl, .palette hentries, hall⟩

/-- A point is put into the description, and its name among those given. -/
theorem outcome_readPoint_went (given : List Primary) (token : Token)
    (hplain : Lexer.Plain body.lexer) :
    Outcome (fun value after => ∃ point more, Chromaticities.Spelled point (token.piece :: more) ∧
        value = point.1 :: given ∧ Went more (fun image =>
          { image with chromaticities := image.chromaticities.set point.1 point.2 }) body after)
      (fun _ _ => True) (Chromaticities.readPoint given token body) := by
  unfold Chromaticities.readPoint
  cases hprimary : Chromaticities.primary? token with
  | none => trivial
  | some which =>
    have his : token.piece = .bare which.name := by
      simp only [Chromaticities.primary?] at hprimary
      split at hprimary
      · cases hprimary
      · rename_i hquoted
        have hname : which.name = token.text := by simpa using List.find?_some hprimary
        exact piece_eq ⟨by simpa using hquoted, hname.symm⟩
    refine .bind (tells_readCoordinates which body hplain) ?_
    rintro point middle ⟨more, hpoint, hwent⟩
    have hchange := Went.change (f := fun image =>
      { image with chromaticities := image.chromaticities.set which point }) hwent.plain
    have hall := hwent.trans hchange
    rw [List.append_nil] at hall
    exact ⟨(which, point), more, his ▸ hpoint, rfl, hall⟩

theorem foldl_given (points : List (Primary × Point)) (given : List Primary) :
    points.foldl (fun given point => point.1 :: given) given =
      (points.map Prod.fst).reverse ++ given := by
  induction points generalizing given with
  | nil => rfl
  | cons point points ih => simp [ih]

theorem foldl_points (points : List (Primary × Point)) (image : Image) :
    points.foldl (fun image point =>
        { image with chromaticities := image.chromaticities.set point.1 point.2 }) image =
      { image with
        chromaticities := points.foldl (fun found point => found.set point.1 point.2)
          image.chromaticities } := by
  induction points generalizing image with
  | nil => rfl
  | cons point points ih => rw [List.foldl_cons, ih, List.foldl_cons]

theorem outcome_chromaticities_told (hplain : Lexer.Plain body.lexer) :
    Outcome (fun _ after => Told .chromaticities body after) (fun _ _ => True)
      (chromaticities body) := by
  refine .bind (outcome_foldItems_went Chromaticities.forward_readPoint
    (fun given token _ => outcome_readPoint_went given token) [] hplain) ?_
  rintro _ middle ⟨points, inner, hpoints, rfl, hwent⟩
  refine .ite (fun hgiven => ?_) fun _ => trivial
  have hall (which : Primary) : which ∈ points.map Prod.fst := by
    rw [foldl_given, List.all_eq_true] at hgiven
    simpa using hgiven which (by cases which <;> decide)
  have hchange := Went.change (f := fun image =>
    { image with given := { image.given with chromaticities := true } }) hwent.plain
  have hwent := hwent.trans hchange
  simp only [foldl_points, ofPoints_eq hall, List.append_nil] at hwent
  exact ⟨.chromaticities points, _, rfl, .chromaticities hpoints hall, hwent⟩

end ScriptedPng.Block
