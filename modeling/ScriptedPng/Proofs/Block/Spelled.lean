import ScriptedPng.Block.Header
import ScriptedPng.Block.Palette
import ScriptedPng.Proofs.Block.Change
import ScriptedPng.Proofs.Number.Numeral

/-!
# Bodies of blocks from their spelling

A source that spells the settings of a header or the entries of a palette gives the image these
settings and entries.

## Main definitions

* `Block.Before` — a body in front of tokens.
* `Header.Setting.texts`, `Palette.texts` — the tokens of a setting, and of an entry.

## Main statements

* `Block.succeeds_header` — a header is read from the tokens of its settings.
* `Block.succeeds_palette` — a palette is read from the tokens of its entries.
-/

namespace ScriptedPng.Block

open Diagnostic

/-- The image is the given one, and tokens with the given texts come next. -/
structure Before (image : Image) (more : List String) (rest : List Char) (body : Body) :
    Prop where
  image_eq : body.image = image
  spelling : Lexer.Spelling more rest body.lexer

variable {α : Type} {image : Image} {text : String} {more : List String} {rest : List Char}
  {body : Body}

/-! ## Tokens -/

/-- A token with the given text, which is not quoted, has been found. -/
def FoundText (text : String) (found : Option Token) : Prop :=
  ∃ line, found = some ⟨text, line, false⟩

theorem succeeds_next (h : Before image (text :: more) rest body) :
    Succeeds (fun found after => FoundText text found ∧ Before image more rest after)
      (read Lexer.next body) := by
  refine (succeeds_read (Lexer.succeeds_next h.spelling)).mono_post ?_
  rintro found after ⟨himage, hfound, hspelling⟩
  exact ⟨hfound, himage.trans h.image_eq, hspelling⟩

theorem succeeds_inner (h : Before image (text :: more) rest body) (htext : text ≠ "\x7d") :
    Succeeds (fun found after => ∃ token : Token, found = some token ∧
        (∃ line, token = ⟨text, line, false⟩) ∧ Before image more rest after)
      (read Lexer.inner body) :=
  succeeds_inner_of_next (succeeds_next h) htext

/-- The delimiter that closes a block ends its items. -/
theorem succeeds_inner_close (h : Before image ("\x7d" :: more) rest body) :
    Succeeds (fun found after => found = none ∧ Before image more rest after)
      (read Lexer.inner body) :=
  succeeds_inner_close_of_next (succeeds_next h)

theorem succeeds_require (h : Before image (text :: more) rest body) :
    Succeeds (fun _ after => Before image more rest after) (read (Lexer.require text) body) :=
  succeeds_require_of_next (succeeds_next h)

/-- The numeral of a long constant is short. -/
theorem length_repr_le {n : Nat} (h : n ≤ longLimit) : n.repr.length ≤ 10 := by
  rw [← String.length_toList, Nat.toList_repr]
  exact (Nat.length_toDigits_le_iff (by decide) (by decide)).2 (Nat.lt_of_le_of_lt h (by decide))

/-- A decimal numeral is read as a constant with its number as the value. -/
theorem succeeds_integer {kind : Constant} {limit n : Nat} (hlimit : limit ≤ longLimit)
    (hle : n ≤ limit) (h : Before image (n.repr :: more) rest body) :
    Succeeds (fun value after => value = n ∧ Before image more rest after)
      (readConstant (integer kind limit) body) := by
  refine .bind (succeeds_next h) ?_
  rintro _ after ⟨⟨line, rfl⟩, hbefore⟩
  have hlength := length_repr_le (Nat.le_trans hle hlimit)
  have hparse := IntegerConstant.parse_repr (Nat.le_trans hlength (by decide))
  simp only [integer, hparse, if_neg (Nat.not_lt.2 hle)]
  exact ⟨rfl, hbefore⟩

theorem succeeds_change (f : Image → Image) (h : Before image more rest body) :
    Succeeds (fun _ after => Before (f image) more rest after) (change f body) :=
  ⟨congrArg f h.image_eq, h.spelling⟩

/-! ## Headers -/

/-- The tokens of a setting. -/
def Header.Setting.texts : Header.Setting → List String
  | height value => ["height", value.repr]
  | width value => ["width", value.repr]
  | bitDepth value => ["bitdepth", value.repr]
  | palette => ["palette"]
  | color => ["color"]
  | alpha => ["alpha"]
  | interlace => ["interlace"]
  | filler => ["with"]

namespace Header

/-- The word that a setting starts with. -/
theorem Setting.exists_texts (setting : Setting) : ∃ first others,
    setting.texts = first :: others ∧ first ≠ "\x7d" := by
  cases setting <;> exact ⟨_, _, rfl, by simp⟩

/-- The value of a setting is read from its numeral. -/
theorem succeeds_value {kind : Constant} {limit n : Nat} (f : Nat → Setting)
    (hlimit : limit ≤ longLimit) (hle : n ≤ limit) (h : Before image (n.repr :: more) rest body) :
    Succeeds (fun found after => found = f n ∧ Before image more rest after)
      ((f <$> readConstant (integer kind limit)) body) := by
  refine .map ((succeeds_integer hlimit hle h).mono_post ?_)
  rintro _ after ⟨rfl, hafter⟩
  exact ⟨rfl, hafter⟩

/-- A setting is read from its tokens and applied. -/
theorem succeeds_readSetting {setting : Setting} (hrange : setting.InRange) {line : Nat}
    {others : List String} (htexts : setting.texts = text :: others)
    (h : Before image (others ++ more) rest body) :
    Succeeds (fun _ after => Before (setting.apply image) more rest after)
      (readSetting ⟨text, line, false⟩ body) := by
  have hread : Succeeds (fun found after => found = setting ∧ Before image more rest after)
      (Header.setting ⟨text, line, false⟩ body) := by
    cases setting with
    | height value =>
      cases htexts
      exact succeeds_value Setting.height (by decide) hrange h
    | width value =>
      cases htexts
      exact succeeds_value Setting.width (by decide) hrange h
    | bitDepth value =>
      cases htexts
      exact succeeds_value Setting.bitDepth (by decide) hrange h
    | _ =>
      cases htexts
      exact ⟨rfl, h⟩
  refine .bind hread ?_
  rintro chosen after ⟨rfl, hafter⟩
  exact succeeds_change (Setting.apply · chosen) hafter

/-- The settings are applied one after the other. -/
theorem succeeds_settings {settings : List Setting} (hrange : ∀ setting ∈ settings, setting.InRange)
    (h : Before image (settings.flatMap Setting.texts ++ "\x7d" :: more) rest body) :
    Succeeds (fun _ after => Before (settings.foldl Setting.apply image) more rest after)
      (forEachItem readSetting forward_readSetting body) := by
  induction settings generalizing image body with
  | nil =>
    refine .foldEach_none ?_
    exact succeeds_inner_close h
  | cons setting settings ih =>
    obtain ⟨first, others, htexts, hfirst⟩ := setting.exists_texts
    rw [List.flatMap_cons, htexts, List.cons_append, List.cons_append, List.append_assoc] at h
    refine .foldEach_some (fun _ => Before (setting.apply image)
      (settings.flatMap Setting.texts ++ "\x7d" :: more) rest) (succeeds_inner h hfirst) ?_
      fun _ after hafter => ?_
    · rintro _ state ⟨⟨line, rfl⟩, hstate⟩
      exact succeeds_readSetting (hrange setting List.mem_cons_self) htexts hstate
    · exact ih (fun setting hmem => hrange setting (List.mem_cons_of_mem _ hmem)) hafter

end Header

/-- A header is read from the tokens of settings that give the image a size. -/
theorem succeeds_header {settings : List Header.Setting}
    (hrange : ∀ setting ∈ settings, setting.InRange)
    (hheight : (settings.foldl Header.Setting.apply (Header.reset image)).height ≠ 0)
    (hwidth : (settings.foldl Header.Setting.apply (Header.reset image)).width ≠ 0)
    (h : Before image (settings.flatMap Header.Setting.texts ++ "\x7d" :: more) rest body) :
    Succeeds (fun _ after =>
        Before (settings.foldl Header.Setting.apply (Header.reset image)) more rest after)
      (header body) := by
  refine .bind (succeeds_change Header.reset h) ?_
  intro _ reset hreset
  refine .bind (Header.succeeds_settings hrange hreset) ?_
  intro _ after hafter
  have himage := hafter.image_eq
  rw [← himage] at hheight hwidth
  simp only [Header.checkSize, Bind.bind, EStateM.bind, Block.image, if_neg hheight,
    if_neg hwidth]
  exact hafter

/-! ## Palettes -/

namespace Palette

/-- The tokens of an entry with the given colors. -/
def texts : UInt8 × UInt8 × UInt8 → List String
  | (red, green, blue) =>
    ["(", red.toNat.repr, ",", green.toNat.repr, ",", blue.toNat.repr, ")"]

/-- The entry with the given colors. -/
def entry : UInt8 × UInt8 × UInt8 → Rgb
  | (red, green, blue) => ⟨red.toNat, green.toNat, blue.toNat⟩

/-- A color is read from its numeral. -/
theorem succeeds_byte (color : UInt8) (h : Before image (color.toNat.repr :: more) rest body) :
    Succeeds (fun value after => value = color.toNat ∧ Before image more rest after)
      (readConstant byte body) :=
  succeeds_integer (by decide) (Nat.le_of_lt_succ color.toNat_lt) h

theorem succeeds_readColors (colors : UInt8 × UInt8 × UInt8) {others : List String}
    (htexts : texts colors = text :: others) (h : Before image (others ++ more) rest body) :
    Succeeds (fun value after => value = entry colors ∧ Before image more rest after)
      (readColors body) := by
  obtain ⟨red, green, blue⟩ := colors
  cases htexts
  refine .bind (succeeds_byte red h) ?_
  rintro _ _ ⟨rfl, h⟩
  refine .bind (succeeds_require h) fun _ _ h => .bind (succeeds_byte green h) ?_
  rintro _ _ ⟨rfl, h⟩
  refine .bind (succeeds_require h) fun _ _ h => .bind (succeeds_byte blue h) ?_
  rintro _ _ ⟨rfl, h⟩
  exact .bind (succeeds_require h) fun _ _ h => ⟨rfl, h⟩

/-- The image with one more entry in its palette. -/
def append (image : Image) (colors : UInt8 × UInt8 × UInt8) : Image :=
  { image with palette := image.palette ++ [entry colors] }

/-- An entry is read from its tokens and appended, unless there are too many of them. -/
theorem succeeds_readEntry {colors : UInt8 × UInt8 × UInt8} {line : Nat} {others : List String}
    (hlimit : image.palette.length ≠ limit) (htexts : texts colors = text :: others)
    (h : Before image (others ++ more) rest body) :
    Succeeds (fun _ after => Before (append image colors) more rest after)
      (readEntry ⟨text, line, false⟩ body) := by
  have hcolors := succeeds_readColors colors htexts h
  have htext : text = "(" := (List.cons.inj htexts).1.symm
  have himage := h.image_eq
  rw [← himage] at hlimit
  subst htext
  simp only [readEntry]
  rw [if_pos ⟨rfl, rfl⟩]
  have hread : Succeeds (fun found after => found = body.image ∧ after = body)
      (Block.image body) := ⟨rfl, rfl⟩
  refine .bind hread ?_
  rintro _ _ ⟨rfl, rfl⟩
  rw [if_neg hlimit]
  refine .bind hcolors ?_
  rintro _ after ⟨rfl, hafter⟩
  exact succeeds_change (append · colors) hafter

theorem succeeds_entries {colors : List (UInt8 × UInt8 × UInt8)}
    (hlimit : image.palette.length + colors.length ≤ limit)
    (h : Before image (colors.flatMap texts ++ "\x7d" :: more) rest body) :
    Succeeds (fun _ after => Before (colors.foldl append image) more rest after)
      (forEachItem readEntry forward_readEntry body) := by
  induction colors generalizing image body with
  | nil =>
    refine .foldEach_none ?_
    exact succeeds_inner_close h
  | cons first colors ih =>
    rw [List.length_cons] at hlimit
    rw [List.flatMap_cons, List.append_assoc] at h
    refine .foldEach_some (fun _ => Before (append image first)
      (colors.flatMap texts ++ "\x7d" :: more) rest) (succeeds_inner h (by decide)) ?_
      fun _ after hafter => ?_
    · rintro _ state ⟨⟨line, rfl⟩, hstate⟩
      exact succeeds_readEntry (by omega) rfl hstate
    · exact ih (by simp [append]; omega) hafter

theorem foldl_append (colors : List (UInt8 × UInt8 × UInt8)) :
    colors.foldl append image = { image with palette := image.palette ++ colors.map entry } := by
  induction colors generalizing image with
  | nil => simp
  | cons first colors ih => simp [ih, append]

end Palette

/-- A palette is read from the tokens of its entries, unless there are too many of them. -/
theorem succeeds_palette {colors : List (UInt8 × UInt8 × UInt8)} (hempty : image.palette = [])
    (hlimit : colors.length ≤ Palette.limit)
    (h : Before image (colors.flatMap Palette.texts ++ "\x7d" :: more) rest body) :
    Succeeds (fun _ after => Before { image with
        palette := colors.map Palette.entry, given := { image.given with palette := true } }
        more rest after) (palette body) := by
  refine .bind (Palette.succeeds_entries (by simpa [hempty] using hlimit) h) ?_
  intro _ after hafter
  rw [Palette.foldl_append, hempty, List.nil_append] at hafter
  exact succeeds_change (fun image => { image with given := { image.given with palette := true } })
    hafter

end ScriptedPng.Block
