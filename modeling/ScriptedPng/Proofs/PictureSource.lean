import ScriptedPng.Compilation
import ScriptedPng.Proofs.Png.Decoding
import ScriptedPng.Proofs.Segment.Spelled

/-!
# Sources of pictures

A source of a picture has three blocks, or two if there is no palette: a header with the settings of
the picture in any order, the palette, and the pixels row by row. Blanks stand in between as they
like.

## Main definitions

* `Picture.settings`, `Picture.alphabet` — the settings of a picture, and how its pixels are
  spelled.
* `Picture.IsSource` — characters are a source of the picture.

## Main statements

* `Picture.exists_isSource` — every legal picture has a source.
* `Picture.describes_image` — the image that such a source describes.
-/

namespace ScriptedPng.Png

open Block

/-- The settings that make up a color type. -/
def colorSettings : ColorType → List Header.Setting
  | .grayscale => []
  | .rgb => [.color]
  | .indexed => [.palette]
  | .grayscaleAlpha => [.alpha]
  | .rgba => [.color, .alpha]

/-- The flags of a color type. -/
def colorFlags : ColorType → ColorFlags
  | .grayscale => {}
  | .rgb => { color := true }
  | .indexed => { palette := true }
  | .grayscaleAlpha => { alpha := true }
  | .rgba => { color := true, alpha := true }

namespace Picture

/-- The settings of a picture. -/
def settings (picture : Picture) : List Header.Setting :=
  [.width picture.header.width, .height picture.header.height,
      .bitDepth picture.header.bitDepth] ++
    colorSettings picture.header.type ++
    match picture.header.interlace with
    | .none => []
    | .adam7 => [.interlace]

/-- A letter is enough for a small sample, and for an index into a small palette. -/
def alphabet (picture : Picture) : Segment.Alphabet :=
  if picture.header.type = .indexed then
    if picture.palette.length ≤ 62 then .base62 else .hex
  else if picture.header.bitDepth * picture.header.type.channels ≤ 5 then .base62
  else .hex

/-- The tokens of a source in front of the pixels. -/
def texts (picture : Picture) (settings : List Header.Setting) : List String :=
  ["IHDR", "\x7b"] ++ settings.flatMap Header.Setting.texts ++ ["\x7d"] ++
    (if picture.header.type = .indexed then
      ["PLTE", "\x7b"] ++ picture.palette.flatMap Palette.texts ++ ["\x7d"]
    else []) ++ ["IMAGE", "\x7b"]

/-- The characters are a source of the picture. -/
def IsSource (picture : Picture) (chars : List Char) : Prop :=
  ∃ settings segment blanks, settings.Perm picture.settings ∧
    Segment.Spells picture.alphabet picture.data segment ∧
    (∀ c ∈ blanks, Text.isBlank c = true) ∧
    Lexer.Spells (segment ++ '\x7d' :: blanks) (picture.texts settings) chars

/-- The image that a source of the picture describes. -/
def image (picture : Picture) : Image where
  width := picture.header.width
  height := picture.header.height
  bitDepth := picture.header.bitDepth
  color := colorFlags picture.header.type
  interlace := picture.header.interlace
  palette := picture.palette.map Palette.entry
  given := { palette := decide (picture.header.type = .indexed) }

variable {picture : Picture}

theorem texts_of_indexed (h : picture.header.type = .indexed) (settings : List Header.Setting) :
    picture.texts settings = Keyword.header.name :: "\x7b" ::
      (settings.flatMap Header.Setting.texts ++ "\x7d" :: Keyword.palette.name :: "\x7b" ::
        (picture.palette.flatMap Palette.texts ++ "\x7d" :: [Keyword.pixels.name, "\x7b"])) := by
  simp [texts, h, Keyword.name]

theorem texts_of_not_indexed (h : picture.header.type ≠ .indexed)
    (settings : List Header.Setting) :
    picture.texts settings = Keyword.header.name :: "\x7b" ::
      (settings.flatMap Header.Setting.texts ++ "\x7d" :: [Keyword.pixels.name, "\x7b"]) := by
  simp [texts, h, Keyword.name]

/-! ## The image -/

/-- The image of a picture refers to a palette just if the samples of the picture are indexes. -/
theorem palette_image : picture.image.color.palette = decide (picture.header.type = .indexed) := by
  rw [image]
  cases picture.header.type <;> rfl

/-- A header is all there is to know of an image without a palette. -/
theorem image_of_not_indexed (h : picture.Legal) (htype : picture.header.type ≠ .indexed) :
    { picture.image with palette := [], given := {} } = picture.image := by
  simp [image, htype, palette_nil h htype]

theorem colorType?_colorFlags (type : ColorType) : (colorFlags type).colorType? = some type := by
  cases type <;> rfl

theorem of_image (h : picture.Legal) : picture.header.Of picture.image where
  checked := by
    have hpalette := h.palette
    rw [checkHeader, image, colorType?_colorFlags]
    simp only [h.header.bitDepth_mem, Int.toNat_natCast, List.length_map, List.map_eq_nil_iff]
    by_cases htype : picture.header.type = .indexed
    · rw [if_pos htype] at hpalette
      have hne : picture.palette ≠ [] := List.ne_nil_of_length_pos hpalette.1
      simp [htype, hne, Nat.not_lt.2 hpalette.2]
    · simp [htype]
  legal := h.header
  width := rfl
  height := rfl
  bitDepth := rfl
  interlace := rfl
  palette := by
    intro entry hmem
    obtain ⟨colors, -, rfl⟩ := List.mem_map.1 hmem
    exact isBytes_entry colors

/-- The image that is described shows the picture. -/
theorem describes_image (h : picture.Legal) : picture.Describes picture.image :=
  ⟨of_image h, rfl, rfl⟩

/-- Pixels are spelled in the alphabet in which they are read. -/
theorem alphabet_image : Compilation.alphabet picture.image = picture.alphabet := by
  have hsmall (n : Nat) : (picture.header.bitDepth : Int) * n ≤ 5 ↔
      picture.header.bitDepth * n ≤ 5 := by
    rw [← Int.natCast_mul]
    exact Int.ofNat_le
  have hone : (picture.header.bitDepth : Int) ≤ 5 ↔ picture.header.bitDepth ≤ 5 := by omega
  rw [Compilation.alphabet, alphabet, Image.sampleSize, image]
  cases picture.header.type <;>
    simp [colorFlags, ColorFlags.channels, ColorType.channels, ← hsmall, hone]

/-! ## Settings -/

/-- The settings of a picture are in the ranges of their constants. -/
theorem inRange_settings (h : picture.Legal) {settings : List Header.Setting}
    (hperm : settings.Perm picture.settings) : ∀ setting ∈ settings, setting.InRange := by
  have hdepth := Header.bitDepth_le h.header.bitDepth_mem
  have hall : ∀ setting ∈ picture.settings, setting.InRange := by
    intro setting hmem
    rcases List.mem_append.1 hmem with hmem | hmem
    · rcases List.mem_append.1 hmem with hmem | hmem
      · simp only [List.mem_cons, List.not_mem_nil, or_false] at hmem
        rcases hmem with rfl | rfl | rfl
        · exact h.header.width_le
        · exact h.header.height_le
        · have hlimit : picture.header.bitDepth ≤ byteLimit := by
            rw [byteLimit]
            omega
          exact hlimit
      · cases htype : picture.header.type <;> simp [htype, colorSettings] at hmem
        · subst hmem; trivial
        · subst hmem; trivial
        · subst hmem; trivial
        · rcases hmem with rfl | rfl <;> trivial
    · cases hinterlace : picture.header.interlace <;> simp [hinterlace] at hmem
      subst hmem
      trivial
  exact fun setting hmem => hall setting (hperm.mem_iff.1 hmem)

/-- A picture has one value for each of its settings. -/
theorem value_of_mem {value : Nat} :
    (.width value ∈ picture.settings → value = picture.header.width) ∧
    (.height value ∈ picture.settings → value = picture.header.height) ∧
    (.bitDepth value ∈ picture.settings → value = picture.header.bitDepth) := by
  obtain ⟨⟨width, height, depth, type, interlace⟩, palette, rows⟩ := picture
  cases type <;> cases interlace <;> simp [settings, colorSettings]

/-- The settings of a picture, in whatever order, give the image its header. -/
theorem foldl_settings {settings : List Header.Setting} (hperm : settings.Perm picture.settings) :
    settings.foldl Header.Setting.apply (Header.reset {}) =
      { picture.image with palette := [], given := {} } := by
  have hcomm : ∀ first ∈ picture.settings, ∀ second ∈ picture.settings, ∀ image : Image,
      Header.Setting.apply (Header.Setting.apply image first) second =
        Header.Setting.apply (Header.Setting.apply image second) first := by
    intro first hfirst second hsecond image
    cases first <;> cases second <;> first | rfl | skip
    · rw [value_of_mem.2.1 hfirst, value_of_mem.2.1 hsecond]
    · rw [value_of_mem.1 hfirst, value_of_mem.1 hsecond]
    · rw [value_of_mem.2.2 hfirst, value_of_mem.2.2 hsecond]
  rw [← hperm.symm.foldl_eq' hcomm]
  obtain ⟨⟨width, height, depth, type, interlace⟩, palette, rows⟩ := picture
  cases type <;> cases interlace <;> rfl

/-! ## Sources -/

theorem isText_setting {setting : Header.Setting} (h : setting.InRange) :
    ∀ text ∈ setting.texts, Lexer.IsText text := by
  have hnumeral {n : Nat} (hle : n ≤ longLimit) : Lexer.IsText n.repr :=
    Lexer.isText_repr (Nat.le_trans (length_repr_le hle) (by decide))
  cases setting <;>
    simp only [Header.Setting.texts, List.mem_cons, List.not_mem_nil, or_false, forall_eq_or_imp,
      forall_eq]
  · exact ⟨⟨_, _, rfl, .inr (by decide)⟩, hnumeral h⟩
  · exact ⟨⟨_, _, rfl, .inr (by decide)⟩, hnumeral h⟩
  · exact ⟨⟨_, _, rfl, .inr (by decide)⟩, hnumeral (Nat.le_trans h (by decide))⟩
  all_goals exact ⟨_, _, rfl, .inr (by decide)⟩

theorem isText_colors (colors : UInt8 × UInt8 × UInt8) :
    ∀ text ∈ Palette.texts colors, Lexer.IsText text := by
  have hnumeral (color : UInt8) : Lexer.IsText color.toNat.repr := by
    have hlt := color.toNat_lt
    refine Lexer.isText_repr (Nat.le_trans (length_repr_le ?_) (show 10 ≤ _ by decide))
    rw [longLimit]
    omega
  obtain ⟨red, green, blue⟩ := colors
  simp only [Palette.texts, List.mem_cons, List.not_mem_nil, or_false, forall_eq_or_imp, forall_eq]
  have hcomma : Lexer.IsText "," := ⟨_, _, rfl, .inl ⟨rfl, by decide⟩⟩
  exact ⟨⟨_, _, rfl, .inl ⟨rfl, by decide⟩⟩, hnumeral red, hcomma, hnumeral green, hcomma,
    hnumeral blue, ⟨_, _, rfl, .inl ⟨rfl, by decide⟩⟩⟩

/-- A letter is chosen only where each sample takes one octet and is small. -/
theorem sample_lt_of_base62 (h : picture.Legal) (halphabet : picture.alphabet = .base62) :
    picture.header.sampleOctets = 1 ∧
      ∀ row ∈ picture.rows, ∀ pixel ∈ row, ∀ sample ∈ pixel, sample < 62 := by
  have hmem := h.header.bitDepth_mem
  rw [alphabet] at halphabet
  by_cases htype : picture.header.type = .indexed
  · rw [if_pos htype] at halphabet
    by_cases hlength : picture.palette.length ≤ 62
    · refine ⟨?_, fun row hrow pixel hpixel sample hsample => ?_⟩
      · rw [htype] at hmem
        simp only [ColorType.bitDepths, List.mem_cons, List.not_mem_nil, or_false] at hmem
        rw [Header.sampleOctets]
        omega
      · exact Nat.lt_of_lt_of_le (h.index_lt htype row hrow pixel hpixel sample hsample) hlength
    · rw [if_neg hlength] at halphabet
      cases halphabet
  · rw [if_neg htype] at halphabet
    by_cases hbits : picture.header.bitDepth * picture.header.type.channels ≤ 5
    · have hchannels : 1 ≤ picture.header.type.channels := by
        cases picture.header.type <;> decide
      have hdepth : picture.header.bitDepth ≤ 5 :=
        Nat.le_trans (Nat.le_mul_of_pos_right _ hchannels) hbits
      have hall : ∀ depth ∈ [1, 2, 4, 8, 16], depth ≤ 5 →
          (depth + 7) / 8 = 1 ∧ 1 <<< depth ≤ 62 := by decide
      obtain ⟨hone, hlimit⟩ := hall _ (mem_of_mem_bitDepths hmem) hdepth
      refine ⟨hone, fun row hrow pixel hpixel sample hsample => ?_⟩
      exact Nat.lt_of_lt_of_le (h.sample_lt row hrow pixel hpixel sample hsample) hlimit
    · rw [if_neg hbits] at halphabet
      cases halphabet

/-- Every octet of the pixel data can be spelled. -/
theorem has_data (h : picture.Legal) : ∀ octet ∈ picture.data, picture.alphabet.Has octet := by
  intro octet hmem
  cases halphabet : picture.alphabet with
  | hex => exact trivial
  | base62 =>
    obtain ⟨hone, hsamples⟩ := sample_lt_of_base62 h halphabet
    obtain ⟨row, hrow, hmem⟩ := List.mem_flatMap.1 hmem
    obtain ⟨pixel, hpixel, hmem⟩ := List.mem_flatMap.1 hmem
    -- The one octet of a sample is the sample itself.
    rw [Header.pixelOctets, hone, flatMap_big_one] at hmem
    obtain ⟨sample, hsample, rfl⟩ := List.mem_map.1 hmem
    have hlt := hsamples row hrow pixel hpixel sample hsample
    have hoctet : (UInt8.ofNat sample).toNat = sample := by
      rw [UInt8.toNat_ofNat']
      exact Nat.mod_eq_of_lt (Nat.lt_trans hlt (by decide))
    have hhas : (UInt8.ofNat sample).toNat < 62 := by rwa [hoctet]
    exact hhas

/-- Every legal picture has a source. -/
theorem exists_isSource (h : picture.Legal) : ∃ chars, picture.IsSource chars := by
  have hwords : ∀ text ∈ ["IHDR", "PLTE", "IMAGE", "\x7b", "\x7d"], Lexer.IsText text := by
    simp only [List.mem_cons, List.not_mem_nil, or_false, forall_eq_or_imp, forall_eq]
    exact ⟨⟨_, _, rfl, .inr (by decide)⟩, ⟨_, _, rfl, .inr (by decide)⟩,
      ⟨_, _, rfl, .inr (by decide)⟩, ⟨_, _, rfl, .inl ⟨rfl, by decide⟩⟩,
      ⟨_, _, rfl, .inl ⟨rfl, by decide⟩⟩⟩
  have hsettings : ∀ text ∈ picture.settings.flatMap Header.Setting.texts, Lexer.IsText text := by
    intro text hmem
    obtain ⟨setting, hsetting, htext⟩ := List.mem_flatMap.1 hmem
    exact isText_setting (inRange_settings h (List.Perm.refl _) setting hsetting) text htext
  have hcolors : ∀ text ∈ picture.palette.flatMap Palette.texts, Lexer.IsText text := by
    intro text hmem
    obtain ⟨colors, -, htext⟩ := List.mem_flatMap.1 hmem
    exact isText_colors colors text htext
  obtain ⟨front, hfront, htexts⟩ : ∃ front, (∀ text ∈ front, Lexer.IsText text) ∧
      picture.texts picture.settings = front ++ [String.singleton '\x7b'] := by
    refine ⟨["IHDR", "\x7b"] ++ picture.settings.flatMap Header.Setting.texts ++ ["\x7d"] ++
      (if picture.header.type = .indexed then
        ["PLTE", "\x7b"] ++ picture.palette.flatMap Palette.texts ++ ["\x7d"] else []) ++
      ["IMAGE"], fun text hmem => ?_, by simp [texts]⟩
    simp only [List.mem_append] at hmem
    rcases hmem with (((hmem | hmem) | hmem) | hmem) | hmem
    · exact hwords text (by grind)
    · exact hsettings text hmem
    · exact hwords text (by grind)
    · split at hmem
      · simp only [List.mem_append] at hmem
        rcases hmem with (hmem | hmem) | hmem
        · exact hwords text (by grind)
        · exact hcolors text hmem
        · exact hwords text (by grind)
      · cases hmem
    · exact hwords text (by grind)
  have hspells (rest : List Char) : Lexer.Spells rest (picture.texts picture.settings)
      (Lexer.spaced rest (front ++ [String.singleton '\x7b'])) := by
    rw [htexts]
    exact Lexer.spells_spaced hfront (by decide)
  exact ⟨_, picture.settings, _, [], .refl _, Segment.spells_digits (has_data h), by simp,
    hspells _⟩

end Picture

end ScriptedPng.Png
