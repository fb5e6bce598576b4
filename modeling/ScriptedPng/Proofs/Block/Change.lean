import ScriptedPng.Block.Chromaticities
import ScriptedPng.Block.Gamma
import ScriptedPng.Block.Header
import ScriptedPng.Block.Intent
import ScriptedPng.Block.Palette
import ScriptedPng.Proofs.Outcome
import ScriptedPng.Proofs.Png.Payload

/-!
# What bodies of blocks change

The body of a block changes the description of the image in small steps, and each kind of block has
steps of its own. What every step of a block keeps, its body keeps, whether it succeeds or fails on
the way.

## Main definitions

* `Block.Change` — the steps in which the blocks change an image.
* `Block.Keeps` — whatever becomes of an action, something stays true of the image.
* `Image.Bounded` — the numbers of the image are in the ranges of the constants they come from.

## Main statements

* `Block.keeps_header`, `Block.keeps_palette`, … — a body keeps what its steps keep.
* `Block.sized_header` — after a header the image has a size.
* `Block.Change.bounded` — all steps keep an image bounded.
-/

namespace ScriptedPng

/-- The numbers of the image are in the ranges of the constants they come from. The size of an image
without a header is zero. -/
structure Image.Bounded (image : Image) : Prop where
  width : 0 ≤ image.width ∧ image.width ≤ Block.longLimit
  height : 0 ≤ image.height ∧ image.height ≤ Block.longLimit
  palette : ∀ entry ∈ image.palette, entry.IsBytes

namespace Block

open Diagnostic

/-! ## Steps -/

/-- The value of the setting is in the range of its kind of constant. -/
def Header.Setting.InRange : Header.Setting → Prop
  | height value | width value => value ≤ longLimit
  | bitDepth value => value ≤ byteLimit
  | _ => True

/-- The steps in which the blocks with a keyword change the description of an image. -/
inductive Change : Keyword → Image → Image → Prop
  | reset (image : Image) : Change .header image (Header.reset image)
  | setting (image : Image) (setting : Header.Setting) (h : setting.InRange) :
      Change .header image (setting.apply image)
  | gamma (image : Image) (value : Double) : Change .gamma image { image with gamma := value }
  | givenGamma (image : Image) :
      Change .gamma image { image with given := { image.given with gamma := true } }
  | intent (image : Image) (intent : Nat) : Change .intent image (inStandardSpace intent image)
  | point (image : Image) (which : Primary) (point : Point) :
      Change .chromaticities image
        { image with chromaticities := image.chromaticities.set which point }
  | givenChromaticities (image : Image) : Change .chromaticities image
      { image with given := { image.given with chromaticities := true } }
  | entry (image : Image) (entry : Rgb) (h : entry.IsBytes) :
      Change .palette image { image with palette := image.palette ++ [entry] }
  | givenPalette (image : Image) :
      Change .palette image { image with given := { image.given with palette := true } }

namespace Change

variable {keyword : Keyword} {before after : Image}

/-- Only headers change what color the pixels have. -/
theorem color_eq (h : Change keyword before after) (hkeyword : keyword ≠ .header) :
    after.color = before.color := by
  cases h <;> first | rfl | contradiction

/-- Only palettes change whether a palette is given. -/
theorem given_palette_eq (h : Change keyword before after) (hkeyword : keyword ≠ .palette) :
    after.given.palette = before.given.palette := by
  cases h with
  | setting _ setting => cases setting <;> rfl
  | _ => first | rfl | contradiction

/-- All steps keep an image bounded. -/
theorem bounded (h : Change keyword before after) (hbounded : before.Bounded) :
    after.Bounded := by
  obtain ⟨hwidth, hheight, hpalette⟩ := hbounded
  cases h with
  | setting _ setting hrange =>
    cases setting with
    | width value =>
      have hvalue : value ≤ longLimit := hrange
      exact ⟨⟨Int.natCast_nonneg value, Int.ofNat_le.2 hvalue⟩, hheight, hpalette⟩
    | height value =>
      have hvalue : value ≤ longLimit := hrange
      exact ⟨hwidth, ⟨Int.natCast_nonneg value, Int.ofNat_le.2 hvalue⟩, hpalette⟩
    | _ => exact ⟨hwidth, hheight, hpalette⟩
  | entry _ entry hbytes =>
    refine ⟨hwidth, hheight, fun found hmem => ?_⟩
    rcases List.mem_append.1 hmem with hmem | hmem
    · exact hpalette found hmem
    · exact List.mem_singleton.1 hmem ▸ hbytes
  | _ => exact ⟨hwidth, hheight, hpalette⟩

end Change

/-! ## Actions of bodies -/

/-- Whatever becomes of the action, something stays true of the image. -/
def Keeps {α : Type} (invariant : Image → Prop) (action : BodyM α) : Prop :=
  Maintains (fun body => invariant body.image) action

section

variable {α : Type} {invariant : Image → Prop}

/-- Reading from the source leaves the image as it is. -/
theorem outcome_read {action : LexerM α} {body : Body} {post : α → Lexer → Prop}
    {fault : Diagnostic → Lexer → Prop} (h : Outcome post fault (action body.lexer)) :
    Outcome (fun value after => after.image = body.image ∧ post value after.lexer)
      (fun diagnostic after => after.image = body.image ∧ fault diagnostic after.lexer)
      (read action body) := by
  simp only [read]
  cases hresult : action body.lexer <;> rw [hresult] at h <;> exact ⟨rfl, h⟩

theorem succeeds_read {action : LexerM α} {body : Body} {post : α → Lexer → Prop}
    (h : Succeeds post (action body.lexer)) :
    Succeeds (fun value after => after.image = body.image ∧ post value after.lexer)
      (read action body) :=
  (outcome_read h).mono_fault fun _ _ h => h.2

/-- Reading one part after the other is reading them both. -/
theorem read_bind {β : Type} (action : LexerM α) (next : α → LexerM β) :
    read (action >>= next) = (do read (next (← read action))) := by
  funext body
  simp only [read, Bind.bind, EStateM.bind]
  cases action body.lexer <;> rfl

section

variable {text : String} {post : Body → Prop} {body : Body}

/-- A word that comes next is the one that is required. -/
theorem succeeds_require_of_next
    (h : Succeeds (fun found after => (∃ line, found = some ⟨text, line, false⟩) ∧ post after)
      (read Lexer.next body)) :
    Succeeds (fun _ after => post after) (read (Lexer.require text) body) := by
  unfold Lexer.require
  rw [read_bind]
  refine .bind h ?_
  rintro _ after ⟨⟨line, rfl⟩, hafter⟩
  simp only [if_pos (show Token.Is ⟨text, line, false⟩ text from ⟨rfl, rfl⟩)]
  exact hafter

/-- A word that comes next starts an item of a body, unless it is the delimiter that closes it. -/
theorem succeeds_inner_of_next
    (h : Succeeds (fun found after => (∃ line, found = some ⟨text, line, false⟩) ∧ post after)
      (read Lexer.next body)) (hopen : text ≠ "\x7d") :
    Succeeds (fun found after => ∃ token : Token, found = some token ∧
      (∃ line, token = ⟨text, line, false⟩) ∧ post after) (read Lexer.inner body) := by
  unfold Lexer.inner
  rw [read_bind]
  refine .bind h ?_
  rintro _ after ⟨⟨line, rfl⟩, hafter⟩
  have hnot : ¬ Token.Is ⟨text, line, false⟩ "\x7d" := fun his => hopen his.2
  simp only [if_neg hnot]
  exact ⟨_, rfl, ⟨line, rfl⟩, hafter⟩

/-- The delimiter that closes a body ends its items. -/
theorem succeeds_inner_close_of_next
    (h : Succeeds (fun found after => (∃ line, found = some ⟨"\x7d", line, false⟩) ∧ post after)
      (read Lexer.next body)) :
    Succeeds (fun found after => found = none ∧ post after) (read Lexer.inner body) := by
  unfold Lexer.inner
  rw [read_bind]
  refine .bind h ?_
  rintro _ after ⟨⟨line, rfl⟩, hafter⟩
  exact ⟨rfl, hafter⟩

end

theorem keeps_read (action : LexerM α) : Keeps invariant (read action) := by
  intro body h
  simp only [read]
  split <;> exact ⟨trivial, h⟩

theorem keeps_change {f : Image → Image} (h : ∀ image, invariant image → invariant (f image)) :
    Keeps invariant (change f) :=
  fun body hbody => ⟨trivial, h body.image hbody⟩

theorem keeps_image : Keeps invariant image := fun _ h => ⟨trivial, h⟩

theorem keeps_fail (cause : Cause) : Keeps invariant (fail (α := α) cause) := .throw trivial

theorem keeps_failAt (token : Token) (cause : Cause) :
    Keeps invariant (failAt (α := α) token cause) :=
  .throw trivial

theorem keeps_lift (result : Except Diagnostic α) : Keeps invariant (lift result) := by
  cases result
  · exact .throw trivial
  · exact .pure trivial

/-- What has been read as a constant is the value of some token. -/
theorem ensures_readConstant (value : Option Token → Except Diagnostic α) :
    Ensures (fun body : Body => invariant body.image)
      (fun found => ∃ token, value token = .ok found) (fun _ => True) (readConstant value) := by
  refine .bind (keeps_read _) ?_
  intro token _
  cases hvalue : value token with
  | error diagnostic => exact .throw trivial
  | ok found => exact .pure ⟨token, hvalue⟩

theorem keeps_readConstant (value : Option Token → Except Diagnostic α) :
    Keeps invariant (readConstant value) :=
  .bind (keeps_read _) fun _ _ => keeps_lift _

theorem keeps_inner : Ensures (fun body : Body => invariant body.image)
    (fun found => ∀ token ∈ found, True) (fun _ => True) (read Lexer.inner) :=
  (keeps_read _).mono (fun _ _ _ _ => trivial) fun _ h => h

theorem keeps_foldItems {handle : α → Token → BodyM α}
    {hforward : ∀ result token, Forward (handle result token)}
    (h : ∀ result token, Keeps invariant (handle result token)) (result : α) :
    Keeps invariant (foldItems handle hforward result) :=
  .foldEach trivial keeps_inner fun result token _ _ => h result token

theorem keeps_forEachItem {handle : Token → BodyM Unit}
    {hforward : ∀ token, Forward (handle token)} (h : ∀ token, Keeps invariant (handle token)) :
    Keeps invariant (forEachItem handle hforward) :=
  .foldEach trivial keeps_inner fun _ token _ _ => h token

theorem keeps_close (keyword : String) : Keeps invariant (close keyword) := by
  refine .bind (keeps_read _) ?_
  intro found _
  cases found
  · exact keeps_fail _
  · exact .ite (fun _ => .pure trivial) fun _ => keeps_failAt _ _

end

/-! ## Bodies -/

theorem le_of_integer {kind : Constant} {limit value : Nat} {token : Option Token}
    (h : integer kind limit token = .ok value) : value ≤ limit := by
  cases token with
  | none => cases h
  | some token =>
    simp only [integer] at h
    split at h
    · cases h
    · split at h
      · cases h
      · cases h
        omega

/-- What is said of a token that has no value as a constant of the kind, or of the end. -/
inductive ConstantFault (kind : Constant) : Option Token → Diagnostic → Prop
  | ended : ConstantFault kind none ⟨.endInConstant kind, none⟩
  | malformed (token : Token) : ConstantFault kind (some token)
      ⟨.badConstant kind token.text, some (.at token.line)⟩
  | outOfRange (token : Token) : ConstantFault kind (some token)
      ⟨.constantOutOfRange kind token.text, some (.at token.line)⟩

theorem constantFault_of_integer {kind : Constant} {limit : Nat} {found : Option Token}
    {diagnostic : Diagnostic} (h : integer kind limit found = .error diagnostic) :
    ConstantFault kind found diagnostic := by
  cases found with
  | none =>
    cases h
    exact .ended
  | some token =>
    simp only [integer] at h
    split at h
    · cases h
      exact .malformed token
    · split at h <;> cases h
      exact .outOfRange token

theorem constantFault_of_double {found : Option Token} {diagnostic : Diagnostic}
    (h : double found = .error diagnostic) : ConstantFault .double found diagnostic := by
  cases found with
  | none =>
    cases h
    exact .ended
  | some token =>
    simp only [double] at h
    split at h
    · cases h
      exact .malformed token
    · split at h <;> cases h
      exact .outOfRange token

variable {invariant : Image → Prop}

/-- Something that all steps of the blocks with the keyword keep. -/
def Closed (keyword : Keyword) (invariant : Image → Prop) : Prop :=
  ∀ before after, Change keyword before after → invariant before → invariant after

theorem keeps_gamma (h : Closed .gamma invariant) : Keeps invariant gamma := by
  refine .bind (keeps_readConstant _) ?_
  intro value _
  refine .bind (keeps_change fun image => h _ _ (.gamma image value)) fun _ _ => ?_
  exact .bind (keeps_close _) fun _ _ => keeps_change fun image => h _ _ (.givenGamma image)

theorem keeps_readIntent : Keeps invariant readIntent :=
  .bind (keeps_read _) fun _ _ => .bind (keeps_lift _) fun _ _ =>
    .ite (fun _ => .pure trivial) fun _ => .throw trivial

theorem keeps_intent (h : Closed .intent invariant) : Keeps invariant intent :=
  .bind keeps_readIntent fun intent _ => .bind (keeps_close _) fun _ _ =>
    keeps_change fun image => h _ _ (.intent image intent)

theorem keeps_readPoint (h : ∀ image which point, invariant image →
      invariant { image with chromaticities := image.chromaticities.set which point })
    (given : List Primary) (token : Token) :
    Keeps invariant (Chromaticities.readPoint given token) := by
  unfold Chromaticities.readPoint
  split
  · exact keeps_failAt _ _
  · rename_i primary _
    have hcoordinates : Keeps invariant Chromaticities.readCoordinates :=
      .bind (keeps_read _) fun _ _ => .bind (keeps_readConstant _) fun _ _ =>
        .bind (keeps_read _) fun _ _ => .bind (keeps_readConstant _) fun _ _ =>
        .bind (keeps_read _) fun _ _ => .pure trivial
    refine .bind hcoordinates ?_
    intro point _
    exact .bind (keeps_change fun image => h image primary point) fun _ _ => .pure trivial

theorem keeps_chromaticities (h : Closed .chromaticities invariant) :
    Keeps invariant chromaticities := by
  have hpoint := keeps_readPoint fun image which point => h _ _ (.point image which point)
  refine .bind (keeps_foldItems hpoint _) ?_
  intro given _
  exact .ite (fun _ => keeps_change fun image => h _ _ (.givenChromaticities image))
    fun _ => keeps_fail _

/-- A setting has a value in the range of its constant. -/
theorem ensures_setting (token : Token) :
    Ensures (fun body : Body => invariant body.image) Header.Setting.InRange (fun _ => True)
      (Header.setting token) := by
  have hlong (f : Nat → Header.Setting) (hf : ∀ value, value ≤ longLimit → (f value).InRange) :
      Ensures (fun body : Body => invariant body.image) Header.Setting.InRange (fun _ => True)
        (f <$> readConstant long) :=
    .map ((ensures_readConstant long).mono (fun value ⟨_, h⟩ => hf value (le_of_integer h))
      fun _ h => h)
  have hbyte : Ensures (fun body : Body => invariant body.image) Header.Setting.InRange
      (fun _ => True) (Header.Setting.bitDepth <$> readConstant byte) :=
    .map ((ensures_readConstant byte).mono (fun _ ⟨_, h⟩ => le_of_integer h) fun _ h => h)
  refine .ite (fun _ => hlong _ fun _ h => h) fun _ => .ite (fun _ => hlong _ fun _ h => h)
    fun _ => .ite (fun _ => hbyte) fun _ => ?_
  -- The other settings are words without a value.
  exact .ite (fun _ => .pure trivial) fun _ => .ite (fun _ => .pure trivial) fun _ =>
    .ite (fun _ => .pure trivial) fun _ => .ite (fun _ => .pure trivial) fun _ =>
    .ite (fun _ => .pure trivial) fun _ => .throw trivial

theorem keeps_readSetting (h : Closed .header invariant) (token : Token) :
    Keeps invariant (Header.readSetting token) :=
  .bind (ensures_setting token) fun setting hsetting =>
    keeps_change fun image => h _ _ (.setting image setting hsetting)

theorem keeps_header (h : Closed .header invariant) : Keeps invariant header := by
  refine .bind (keeps_change fun image => h _ _ (.reset image)) fun _ _ => ?_
  refine .bind (keeps_forEachItem (keeps_readSetting h)) fun _ _ => ?_
  exact .bind keeps_image fun _ _ => .ite (fun _ => keeps_fail _) fun _ =>
    .ite (fun _ => keeps_fail _) fun _ => .pure trivial

/-- The colors that have been read as an entry are octets. -/
theorem ensures_readColors (invariant : Image → Prop) :
    Ensures (fun body : Body => invariant body.image) Rgb.IsBytes (fun _ => True)
      Palette.readColors := by
  have hbyte {value : Nat} (h : ∃ token, byte token = .ok value) :
      (0 : Int) ≤ value ∧ (value : Int) < 256 := by
    obtain ⟨token, hvalue⟩ := h
    have : value ≤ 255 := le_of_integer hvalue
    omega
  refine .bind (ensures_readConstant _) fun red hred => .bind (keeps_read _) fun _ _ => ?_
  refine .bind (ensures_readConstant _) fun green hgreen => .bind (keeps_read _) fun _ _ => ?_
  refine .bind (ensures_readConstant _) fun blue hblue => .bind (keeps_read _) fun _ _ => .pure ?_
  simp only [Rgb.IsBytes, List.mem_cons, List.not_mem_nil, or_false]
  rintro n (rfl | rfl | rfl)
  · exact hbyte hred
  · exact hbyte hgreen
  · exact hbyte hblue

theorem keeps_readEntry (h : Closed .palette invariant) (token : Token) :
    Keeps invariant (Palette.readEntry token) := by
  refine .ite (fun _ => .bind keeps_image fun _ _ => .ite (fun _ => keeps_failAt _ _) fun _ => ?_)
    fun _ => keeps_failAt _ _
  exact .bind (ensures_readColors invariant) fun entry hentry =>
    keeps_change fun image => h _ _ (.entry image entry hentry)

theorem keeps_palette (h : Closed .palette invariant) : Keeps invariant palette :=
  .bind (keeps_forEachItem (keeps_readEntry h)) fun _ _ =>
    keeps_change fun image => h _ _ (.givenPalette image)

/-- After a header the image has a size. -/
theorem sized_header (body : Body) :
    Outcome (fun _ after => after.image.height ≠ 0 ∧ after.image.width ≠ 0) (fun _ _ => True)
      (header body) := by
  have hclosed : Closed .header fun _ => True := fun _ _ _ _ => trivial
  have hsettings (body : Body) : Outcome (fun _ _ => True) (fun _ _ => True)
      (forEachItem Header.readSetting Header.forward_readSetting body) :=
    (keeps_forEachItem (keeps_readSetting hclosed) body trivial).mono (fun _ _ _ => trivial)
      fun _ _ _ => trivial
  have hreset : Outcome (fun _ _ => True) (fun _ _ => True) (change Header.reset body) := trivial
  refine .bind hreset ?_
  intro _ after _
  refine .bind (hsettings after) ?_
  intro _ after _
  have himage : Outcome (fun image after => image = after.image) (fun _ _ => True) (image after) :=
    rfl
  refine .bind himage ?_
  intro image after himage
  refine .ite (fun _ => .throw trivial) fun hheight => .ite (fun _ => .throw trivial)
    fun hwidth => ?_
  exact .pure ⟨himage ▸ hheight, himage ▸ hwidth⟩

/-- After a palette one is given. -/
theorem given_palette (body : Body) :
    Outcome (fun _ after => after.image.given.palette = true) (fun _ _ => True)
      (palette body) := by
  have hclosed : Closed .palette fun _ => True := fun _ _ _ _ => trivial
  have hentries : Outcome (fun _ _ => True) (fun _ _ => True)
      (forEachItem Palette.readEntry Palette.forward_readEntry body) :=
    (keeps_forEachItem (keeps_readEntry hclosed) body trivial).mono (fun _ _ _ => trivial)
      fun _ _ _ => trivial
  exact .bind hentries fun _ after _ => rfl

end Block

end ScriptedPng
