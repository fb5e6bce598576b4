import ScriptedPng.Proofs.Block.Ahead
import ScriptedPng.Proofs.Block.Failures
import ScriptedPng.Proofs.Emitted

/-!
# The grammar of headers

The body of a header is a sequence of settings in any order, up to the delimiter that closes it.
Whether it is read depends on its tokens only, and so does the description that it gives the image:
of the settings of a kind the last one counts, and settings of different kinds may change places.

## Main definitions

* `Header.described` — the image with what settings say of it.
* `Header.Sized` — the settings give the image a size.
* `Header.Reordered` — settings that differ in the order of different kinds only.

## Main statements

* `Block.Ahead.header_eq` — what becomes of a header that is spelled.
* `Block.raises_header` — the failures of headers.
* `Block.header_grammar` — the headers that are read, and what they say.
-/

namespace ScriptedPng.Block

open Diagnostic Header Lexer

variable {α : Type} {pieces tokens : List Piece} {last : Lexer} {image : Image} {body : Body}
  {text : String} {quoted : Bool} {settings settings' : List Setting}

/-! ## Headers that are spelled -/

/-- A setting starts with a word that does not close the block. -/
theorem Header.Setting.Spelled.exists_bare {setting : Setting} (h : setting.Spelled pieces) :
    ∃ text more, pieces = .bare text :: more ∧ text ≠ "\x7d" := by
  cases h with
  | filler htext => rcases htext with rfl | rfl <;> exact ⟨_, _, rfl, by simp⟩
  | _ => exact ⟨_, _, rfl, by simp⟩

namespace Ahead

/-- The value of a setting is read from its token. -/
theorem value {kind : Constant} {limit n : Nat} (f : Nat → Setting)
    (h : Ahead (.token text quoted :: pieces) last image body) (hvalue : IsInteger limit text n) :
    Succeeds (fun found after => found = f n ∧ Ahead pieces last image after)
      ((f <$> readConstant (integer kind limit)) body) := by
  refine .map ((h.integerConstant kind hvalue).mono_post ?_)
  rintro _ after ⟨rfl, hafter⟩
  exact ⟨rfl, hafter⟩

/-- A setting is read from its tokens and applied. -/
theorem readSetting {setting : Setting} {line : Nat} {parts : List Piece}
    (hspelled : setting.Spelled (.bare text :: parts))
    (h : Ahead (parts ++ pieces) last image body) :
    Succeeds (fun _ after => Ahead pieces last (setting.apply image) after)
      (readSetting ⟨text, line, false⟩ body) := by
  have hread : Succeeds (fun found after => found = setting ∧ Ahead pieces last image after)
      (Header.setting ⟨text, line, false⟩ body) := by
    cases hspelled with
    | height hvalue => exact h.value Setting.height hvalue
    | width hvalue => exact h.value Setting.width hvalue
    | bitDepth hvalue => exact h.value Setting.bitDepth hvalue
    | filler htext => rcases htext with rfl | rfl <;> exact ⟨rfl, h⟩
    | _ => exact ⟨rfl, h⟩
  refine .bind hread ?_
  rintro chosen after ⟨rfl, hafter⟩
  exact ⟨hafter.trail, congrArg (Setting.apply · chosen) hafter.image_eq⟩

/-- The settings are applied one after the other. -/
theorem readSettings (hspelled : Items Setting.Spelled settings tokens)
    (h : Ahead (tokens ++ [.bare "\x7d"]) last image body) :
    Succeeds (fun _ after => Ahead [] last (settings.foldl Setting.apply image) after)
      (forEachItem Header.readSetting forward_readSetting body) := by
  induction hspelled generalizing image body with
  | nil => exact .foldEach_none h.inner_close
  | @cons setting settings parts rest hsetting _ ih =>
    rw [List.append_assoc] at h
    obtain ⟨text, parts, rfl, hopen⟩ := hsetting.exists_bare
    refine .foldEach_some (fun _ => Ahead (rest ++ [.bare "\x7d"]) last (setting.apply image))
      (h.inner hopen) ?_ fun _ after hafter => ih hafter
    rintro _ state ⟨⟨line, rfl⟩, hstate⟩
    exact hstate.readSetting hsetting

end Ahead

/-- The image with what the settings say: the last width, height and bit depth, which is eight if
there is none, the flags, and the interlacing. -/
def Header.described (settings : List Setting) (image : Image) : Image :=
  { image with
    width := ((settings.filterMap Setting.width?).getLast?.map Int.ofNat).getD image.width
    height := ((settings.filterMap Setting.height?).getLast?.map Int.ofNat).getD image.height
    bitDepth := ((settings.filterMap Setting.bitDepth?).getLast?.map Int.ofNat).getD 8
    color := Setting.flags settings
    interlace := if .interlace ∈ settings then .adam7 else .none }

/-- Settings that are applied one after the other describe the image. -/
theorem foldl_eq_described (settings : List Setting) (image : Image) :
    settings.foldl Setting.apply (reset image) = described settings image := by
  rw [Content.foldl_settings]
  simp only [Setting.width_foldl, Setting.height_foldl, Setting.bitDepth_foldl,
    Setting.color_foldl settings (reset image) rfl,
    Setting.interlace_foldl settings (reset image) rfl]
  rfl

theorem checkSize_eq (body : Body) : checkSize body =
    if body.image.height = 0 then .error ⟨.noHeight, none⟩ body
    else if body.image.width = 0 then .error ⟨.noWidth, none⟩ body
    else .ok () body := by
  simp only [checkSize, Bind.bind, EStateM.bind, Block.image]
  split
  · rfl
  · split <;> rfl

/-- A header that is spelled is read to its end, and the size is checked then. -/
theorem Ahead.header_eq (hspelled : Items Setting.Spelled settings tokens)
    (h : Ahead (tokens ++ [.bare "\x7d"]) last image body) :
    header body = checkSize ⟨last, described settings image⟩ := by
  have hreset : Ahead (tokens ++ [.bare "\x7d"]) last (reset image)
      { body with image := reset body.image } := ⟨h.trail, congrArg reset h.image_eq⟩
  have hread := hreset.readSettings hspelled
  change (forEachItem Header.readSetting forward_readSetting >>= fun _ => checkSize) _ = _
  cases hresult : forEachItem Header.readSetting forward_readSetting
      { body with image := reset body.image } with
  | error diagnostic after =>
    rw [hresult] at hread
    exact hread.elim
  | ok _ after =>
    rw [hresult] at hread
    rw [bind_of_ok hresult, hread.body_eq, foldl_eq_described]

/-- A header that is read is spelled. -/
theorem exists_of_header {after : Body} (hplain : Plain body.lexer)
    (h : header body = .ok () after) :
    ∃ settings tokens, Items Setting.Spelled settings tokens ∧
      Trail (tokens ++ [.bare "\x7d"]) body.lexer after.lexer := by
  have htold := outcome_header_told hplain
  rw [h] at htold
  obtain ⟨block, more, hkeyword, hspelled, hwent⟩ := htold
  cases block <;> cases hkeyword
  cases hspelled with
  | header hsettings => exact ⟨_, _, hsettings, hwent.trail⟩

/-! ## Failures -/

theorem raises_setting (token : Token) : Raises (fun _ => True) (setting token) := by
  have hvalue (kind : Constant) (limit : Nat) (f : Nat → Setting) :
      Raises (fun _ => True) (f <$> readConstant (integer kind limit)) :=
    .map (raises_integer kind limit)
  have hfiller (setting : Setting) : Raises (fun _ => True) (pure setting) := .pure trivial
  exact .ite (fun _ => hvalue _ _ _) fun _ => .ite (fun _ => hvalue _ _ _) fun _ =>
    .ite (fun _ => hvalue _ _ _) fun _ => .ite (fun _ => hfiller _) fun _ =>
    .ite (fun _ => hfiller _) fun _ => .ite (fun _ => hfiller _) fun _ =>
    .ite (fun _ => hfiller _) fun _ => .ite (fun _ => hfiller _) fun _ =>
    .throw (.inl List.mem_cons_self)

/-- Whatever the source is, a header gives only failures of headers. -/
theorem raises_header : Raises (fun _ => True) header := by
  have hsettings : Raises (fun _ => True) (forEachItem Header.readSetting forward_readSetting) :=
    .foldEach trivial (raises_inner.mono (fun _ _ _ _ => trivial) fun _ h => h) fun _ token _ _ =>
      .bind (raises_setting token) fun _ _ => raises_change _
  refine .bind (raises_change _) fun _ _ => .bind hsettings fun _ _ body hplain => ?_
  rw [checkSize_eq]
  split
  · exact ⟨.inl (by simp [Cause.category]), hplain⟩
  · split
    · exact ⟨.inl (by simp [Cause.category]), hplain⟩
    · exact ⟨trivial, hplain⟩

/-! ## The order of settings -/

/-- The kind of a setting: the setting without its value. -/
def Header.Setting.kind : Setting → Setting
  | height _ => .height 0
  | width _ => .width 0
  | bitDepth _ => .bitDepth 0
  | setting => setting

/-- The settings of each kind are the same, in the same order. -/
def Header.Reordered (settings settings' : List Setting) : Prop :=
  ∀ kind, settings.filter (·.kind = kind) = settings'.filter (·.kind = kind)

/-- What settings of one kind set does not depend on those of other kinds. -/
theorem Header.Reordered.filterMap_eq {set? : Setting → Option α}
    (h : Reordered settings settings') (kind : Setting)
    (hkind : ∀ setting, setting.kind ≠ kind → set? setting = none) :
    settings.filterMap set? = settings'.filterMap set? := by
  have hfilter (settings : List Setting) :
      (settings.filter (·.kind = kind)).filterMap set? = settings.filterMap set? := by
    rw [List.filterMap_filter]
    refine List.filterMap_congr fun setting _ => ?_
    by_cases hsame : setting.kind = kind
    · simp [hsame]
    · simp [hsame, hkind setting hsame]
  rw [← hfilter settings, h kind, hfilter]

theorem Header.Reordered.mem_iff (h : Reordered settings settings') (setting : Setting) :
    setting ∈ settings ↔ setting ∈ settings' := by
  have hfilter (settings : List Setting) :
      setting ∈ settings.filter (·.kind = setting.kind) ↔ setting ∈ settings := by simp
  rw [← hfilter settings, h setting.kind, hfilter]

/-- Settings of different kinds may change places. -/
theorem Header.Reordered.described_eq (h : Reordered settings settings') (image : Image) :
    described settings image = described settings' image := by
  have hwidth : settings.filterMap Setting.width? = settings'.filterMap Setting.width? :=
    h.filterMap_eq (.width 0) fun setting hkind => by
      cases setting <;> first | rfl | exact absurd rfl hkind
  have hheight : settings.filterMap Setting.height? = settings'.filterMap Setting.height? :=
    h.filterMap_eq (.height 0) fun setting hkind => by
      cases setting <;> first | rfl | exact absurd rfl hkind
  have hdepth : settings.filterMap Setting.bitDepth? = settings'.filterMap Setting.bitDepth? :=
    h.filterMap_eq (.bitDepth 0) fun setting hkind => by
      cases setting <;> first | rfl | exact absurd rfl hkind
  have hflags : Setting.flags settings = Setting.flags settings' := by
    simp only [Setting.flags, h.mem_iff]
  simp only [described, hwidth, hheight, hdepth, hflags, h.mem_iff]

/-! ## The grammar -/

/-- The settings give the image a size: the last width and the last height are there, and are not
zero. -/
def Header.Sized (settings : List Setting) : Prop :=
  (∃ height, (settings.filterMap Setting.height?).getLast? = some height ∧ height ≠ 0) ∧
    ∃ width, (settings.filterMap Setting.width?).getLast? = some width ∧ width ≠ 0

theorem last_ne_zero_iff {found : Option Nat} :
    (found.map Int.ofNat).getD 0 ≠ 0 ↔ ∃ value, found = some value ∧ value ≠ 0 := by
  cases found <;> simp

theorem Header.sized_iff (hheight : image.height = 0) (hwidth : image.width = 0) :
    Sized settings ↔ (described settings image).height ≠ 0 ∧
      (described settings image).width ≠ 0 := by
  simp only [described, hheight, hwidth, last_ne_zero_iff, Sized]

/-- A header of an image without a size is read if and only if its tokens are settings in any order
up to the delimiter that closes it, and the last width and the last height are there and are not
zero. It has described the image then, and every other header gives a failure of headers. Settings
of different kinds may change places. -/
theorem header_grammar (hplain : Plain body.lexer) (hheight : body.image.height = 0)
    (hwidth : body.image.width = 0) :
    (∀ after, header body = .ok () after ↔ ∃ settings tokens,
        Items Setting.Spelled settings tokens ∧
        Trail (tokens ++ [.bare "\x7d"]) body.lexer after.lexer ∧ Sized settings ∧
        after.image = described settings body.image) ∧
    (∀ diagnostic after, header body = .error diagnostic after → Header.Fault diagnostic) ∧
    ∀ (other : Body) (settings settings' : List Setting) (tokens tokens' : List Piece)
      (last last' : Lexer), other.image = body.image → Reordered settings settings' →
      Items Setting.Spelled settings tokens → Items Setting.Spelled settings' tokens' →
      Trail (tokens ++ [.bare "\x7d"]) body.lexer last →
      Trail (tokens' ++ [.bare "\x7d"]) other.lexer last' →
      (ended (header other)).1 = (ended (header body)).1 ∧
        (ended (header other)).2.image = (ended (header body)).2.image := by
  refine ⟨fun after => ⟨fun h => ?_, ?_⟩, fun diagnostic after h => ?_, ?_⟩
  · obtain ⟨settings, tokens, hspelled, htrail⟩ := exists_of_header hplain h
    have hahead : Ahead (tokens ++ [.bare "\x7d"]) after.lexer body.image body := ⟨htrail, rfl⟩
    rw [hahead.header_eq hspelled, checkSize_eq] at h
    split at h
    · cases h
    · split at h
      · cases h
      · have hafter := congrArg Body.image (EStateM.Result.ok.inj h).2
        have hsized : Sized settings := (sized_iff hheight hwidth).2 ⟨‹_›, ‹_›⟩
        exact ⟨settings, tokens, hspelled, htrail, hsized, hafter.symm⟩
  · rintro ⟨settings, tokens, hspelled, htrail, hsized, himage⟩
    have hahead : Ahead (tokens ++ [.bare "\x7d"]) after.lexer body.image body := ⟨htrail, rfl⟩
    obtain ⟨hsomeHeight, hsomeWidth⟩ := (sized_iff hheight hwidth).1 hsized
    rw [hahead.header_eq hspelled, checkSize_eq, if_neg hsomeHeight, if_neg hsomeWidth, ← himage]
  · have hfault := raises_header body hplain
    rw [h] at hfault
    exact hfault.1
  · intro other settings settings' tokens tokens' last last' himage hreordered hspelled hspelled'
      htrail htrail'
    have hahead : Ahead (tokens ++ [.bare "\x7d"]) last body.image body := ⟨htrail, rfl⟩
    have hother : Ahead (tokens' ++ [.bare "\x7d"]) last' body.image other := ⟨htrail', himage⟩
    rw [hahead.header_eq hspelled, hother.header_eq hspelled', hreordered.described_eq,
      checkSize_eq, checkSize_eq]
    dsimp only
    split
    · exact ⟨rfl, rfl⟩
    · split <;> exact ⟨rfl, rfl⟩

/-- A header in which a width is replaced by a later one. -/
theorem header_grammar_replaced :
    let body : Body :=
      { lexer := .ofSource (.ofChars "width 1 height 2 using palette width 03\x7d".toList) }
    ∃ settings tokens, Items Setting.Spelled settings tokens ∧
      Trail (tokens ++ [.bare "\x7d"]) body.lexer (ended (header body)).2.lexer ∧
      Sized settings ∧ (ended (header body)).2.image = described settings {} := by
  intro body
  have hplain : Plain body.lexer := ⟨_, resumes_ofChars _⟩
  have hended : (ended (header body)).1 = .ok () := by decide +kernel
  refine ((header_grammar hplain rfl rfl).1 (ended (header body)).2).1 ?_
  cases hresult : header body with
  | ok _ after => rfl
  | error diagnostic after => simp [hresult, ended] at hended

end ScriptedPng.Block
