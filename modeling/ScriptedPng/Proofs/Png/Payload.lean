import ScriptedPng.Block.Constant
import ScriptedPng.Proofs.Png.Framing

/-!
# The data of headers and palettes

A header takes thirteen octets, which tell everything that a reader has to know before the pixels; a
palette takes three octets for each entry.

## Main definitions

* `Png.Header` — what a header says, with its octets.
* `Header.ofOctets?` — the header that octets spell.
* `Rgb.IsBytes`, `Png.paletteOctets` — entries whose colors are octets, and the octets of a palette.

## Main statements

* `Header.ofOctets?_octets` — a header can be read back from its octets.
* `Png.raw_headerRecord`, `Png.raw_paletteArray` — the octets of the records.
-/

namespace ScriptedPng

/-- The colors of the entry are octets. -/
def Rgb.IsBytes (entry : Rgb) : Prop :=
  ∀ n ∈ [entry.red, entry.green, entry.blue], 0 ≤ n ∧ n < 256

namespace Png

open Record

/-! ## Octets of numbers -/

theorem raw_wordField (n : Nat) (h : n < UInt32.size) :
    (numberField wordFormat (.integer n)).raw = .ok (Octets.big 4 n) :=
  (numberRaw_word n).trans (if_pos h)

theorem raw_byteField (n : Nat) (h : n < 256) :
    (numberField byteFormat (.integer n)).raw = .ok [UInt8.ofNat n] := by
  refine (numberRaw_unsigned 1 n).trans ((if_pos h).trans ?_)
  simp [Octets.big]

theorem raw_memberField (choices : Enumeration) (kind name : String) (n : Nat) (h : n < 256) :
    (memberField choices ⟨kind, name, n⟩).raw = .ok [UInt8.ofNat n] := by
  have hbyte := raw_byteField n h
  rw [numberField, Field.raw] at hbyte
  rw [memberField, Field.raw, numberRaw_member, hbyte]

/-! ## Headers -/

/-- What a header says. -/
structure Header where
  width : Nat
  height : Nat
  bitDepth : Nat
  type : ColorType
  interlace : Interlace
deriving DecidableEq, Repr

namespace Header

/-- The data of the header. -/
def octets (header : Header) : Octets :=
  Octets.big 4 header.width ++ Octets.big 4 header.height ++
    [UInt8.ofNat header.bitDepth, UInt8.ofNat header.type.code, 0, 0,
      UInt8.ofNat header.interlace.code]

/-- The header that thirteen octets spell. The only methods of compression and filtering have the
number zero. -/
def ofOctets? : Octets → Option Header
  | [w₃, w₂, w₁, w₀, h₃, h₂, h₁, h₀, depth, color, 0, 0, interlace] => do
    let type ← ColorType.all.find? (·.code = color.toNat)
    let interlace ← Interlace.ofCode? interlace.toNat
    return ⟨Octets.number [w₃, w₂, w₁, w₀], Octets.number [h₃, h₂, h₁, h₀], depth.toNat, type,
      interlace⟩
  | _ => none

/-- The image has a size that can be read from a source, and a bit depth of its color type. -/
structure Legal (header : Header) : Prop where
  width_pos : 1 ≤ header.width
  width_le : header.width ≤ Block.longLimit
  height_pos : 1 ≤ header.height
  height_le : header.height ≤ Block.longLimit
  bitDepth_mem : (header.bitDepth : Int) ∈ header.type.bitDepths

instance (header : Header) : Decidable header.Legal :=
  decidable_of_iff (1 ≤ header.width ∧ header.width ≤ Block.longLimit ∧ 1 ≤ header.height ∧
      header.height ≤ Block.longLimit ∧ (header.bitDepth : Int) ∈ header.type.bitDepths)
    ⟨fun ⟨h₁, h₂, h₃, h₄, h₅⟩ => ⟨h₁, h₂, h₃, h₄, h₅⟩, fun ⟨h₁, h₂, h₃, h₄, h₅⟩ =>
      ⟨h₁, h₂, h₃, h₄, h₅⟩⟩

theorem bitDepth_le {type : ColorType} {depth : Int} (h : depth ∈ type.bitDepths) :
    1 ≤ depth ∧ depth ≤ 16 := by
  cases type <;> simp [ColorType.bitDepths] at h <;> omega

theorem find?_code (type : ColorType) :
    ColorType.all.find? (·.code = (UInt8.ofNat type.code).toNat) = some type := by
  cases type <;> rfl

theorem ofCode?_code (interlace : Interlace) :
    Interlace.ofCode? (UInt8.ofNat interlace.code).toNat = some interlace := by
  cases interlace <;> rfl

/-- A legal header can be read back from its octets. -/
theorem ofOctets?_octets {header : Header} (h : header.Legal) :
    ofOctets? header.octets = some header := by
  obtain ⟨width, height, depth, type, interlace⟩ := header
  have hdepth := bitDepth_le h.bitDepth_mem
  have hwidth : Octets.number (Octets.big 4 width) = width := by
    have := h.width_le
    rw [Octets.number_big]
    exact Nat.mod_eq_of_lt (Nat.lt_of_le_of_lt this (by decide))
  have hheight : Octets.number (Octets.big 4 height) = height := by
    have := h.height_le
    rw [Octets.number_big]
    exact Nat.mod_eq_of_lt (Nat.lt_of_le_of_lt this (by decide))
  have hbyte : (UInt8.ofNat depth).toNat = depth := by
    rw [UInt8.toNat_ofNat']
    dsimp only at hdepth
    omega
  simp only [Octets.big] at hwidth hheight
  simp only [octets, Octets.big, List.cons_append, List.nil_append, ofOctets?, find?_code,
    ofCode?_code, hwidth, hheight, hbyte]
  rfl

end Header

/-! ## The records -/

theorem steady_headerRecord (width height depth : Int) (type : ColorType) (interlace : Interlace) :
    (headerRecord width height depth type interlace).Steady := by
  refine steady_leafRecord (by simp [headerFields]; decide) ?_
  intro entry hmem
  simp only [headerFields, List.mem_cons, List.not_mem_nil, or_false] at hmem
  rcases hmem with rfl | rfl | rfl | rfl | rfl | rfl | rfl <;> exact .number rfl

/-- The octets of the record of a legal header. -/
theorem raw_headerRecord {header : Header} (h : header.Legal) :
    (headerRecord header.width header.height header.bitDepth header.type header.interlace).raw =
      .ok header.octets := by
  have hdepth := Header.bitDepth_le h.bitDepth_mem
  have htype : header.type.code < 256 := by cases header.type <;> decide
  have hinterlace : header.interlace.code < 256 := by cases header.interlace <;> decide
  rw [headerRecord, raw_leafRecord (by simp [headerFields]; decide)]
  have hwidth := raw_wordField header.width (Nat.lt_of_le_of_lt h.width_le (by decide))
  have hheight := raw_wordField header.height (Nat.lt_of_le_of_lt h.height_le (by decide))
  have hdepth := raw_byteField header.bitDepth (by omega)
  have hcompression := raw_memberField compressionMethods compressionMethods.name "DEFLATE" 0
    (by decide)
  have hfilter := raw_memberField filterMethods filterMethods.name "ADAPTIVE" 0 (by decide)
  simp only [headerFields, List.map_cons, List.map_nil, colorTypeMember, interlaceMember, hwidth,
    hheight, hdepth, raw_memberField _ _ _ _ htype, raw_memberField _ _ _ _ hinterlace]
  simp only [Int.natCast_zero] at hcompression hfilter
  simp only [hcompression, hfilter]
  simp [Except.map, Header.octets]

theorem words_not_mem_coordinateNames : ∀ what ∈ Attribute.all, what.word ∉ coordinateNames := by
  decide

theorem steady_chromaticityRecord (coordinates : List Int) :
    (chromaticityRecord coordinates).Steady := by
  refine steady_leafRecord (fun what hwhat hmem => ?_) fun entry hmem => ?_
  · obtain ⟨⟨name, field⟩, hentry, rfl⟩ := List.mem_map.1 hmem
    exact words_not_mem_coordinateNames what hwhat (List.of_mem_zip hentry).1
  · obtain ⟨n, -, hn⟩ := List.mem_map.1 (List.of_mem_zip hmem).2
    exact hn ▸ steady_numberField _ _

theorem size_chromaticityRecord {coordinates : List Int} (h : coordinates.length = 8) :
    (chromaticityRecord coordinates).size = .ok 32 := by
  match coordinates, h with
  | [_, _, _, _, _, _, _, _], _ => rfl

/-! ## Palettes -/

/-- The data of a palette whose colors are octets. -/
def paletteOctets (palette : List Rgb) : Octets :=
  palette.flatMap fun entry =>
    [entry.red, entry.green, entry.blue].map fun n => UInt8.ofNat n.toNat

theorem length_paletteOctets (palette : List Rgb) :
    (paletteOctets palette).length = 3 * palette.length := by
  induction palette with
  | nil => rfl
  | cons entry rest ih =>
    simp only [paletteOctets, List.flatMap_cons, List.length_append, List.length_cons] at ih ⊢
    rw [ih]
    simp
    omega

theorem steady_paletteEntry (entry : Rgb) :
    (leafRecord paletteEntryClass (paletteEntryFields entry)).Steady := by
  refine steady_leafRecord (by simp [paletteEntryFields]; decide) ?_
  intro entry hmem
  simp only [paletteEntryFields, List.mem_cons, List.not_mem_nil, or_false] at hmem
  rcases hmem with rfl | rfl | rfl <;> exact .number rfl

theorem raw_paletteEntry {entry : Rgb} (h : entry.IsBytes) :
    (leafRecord paletteEntryClass (paletteEntryFields entry)).raw =
      .ok ([entry.red, entry.green, entry.blue].map fun n => UInt8.ofNat n.toNat) := by
  obtain ⟨red, green, blue⟩ := entry
  simp only [Rgb.IsBytes, List.mem_cons, List.not_mem_nil, or_false, forall_eq_or_imp,
    forall_eq] at h
  have hbyte {n : Int} (h : 0 ≤ n ∧ n < 256) :
      (numberField byteFormat (.integer n)).raw = .ok [UInt8.ofNat n.toNat] := by
    have := raw_byteField n.toNat (by omega)
    rwa [Int.toNat_of_nonneg h.1] at this
  rw [raw_leafRecord (by simp [paletteEntryFields]; decide)]
  simp [paletteEntryFields, hbyte h.1, hbyte h.2.1, hbyte h.2.2, Except.map]

/-- The elements of the array of a palette. -/
def paletteElements (palette : List Rgb) : List Field :=
  palette.map fun entry => leafRecord paletteEntryClass (paletteEntryFields entry)

theorem paletteArray_eq (palette : List Rgb) :
    paletteArray palette = .array .fresh ⟨3, paletteEntryClass.name⟩
      (.list ((paletteElements palette).map .field)) := by
  simp [paletteArray, paletteElements]

theorem steady_paletteArray (palette : List Rgb) : (paletteArray palette).Steady := by
  rw [paletteArray_eq]
  refine .array rfl ?_
  intro item hmem
  obtain ⟨entry, -, rfl⟩ := List.mem_map.1 hmem
  exact steady_paletteEntry entry

/-- The octets of the array of a palette. -/
theorem raw_paletteArray {palette : List Rgb} (h : ∀ entry ∈ palette, entry.IsBytes) :
    (paletteArray palette).raw = .ok (paletteOctets palette) := by
  have hcollect : collect ((paletteElements palette).map Field.raw) =
      .ok (palette.map fun entry =>
        [entry.red, entry.green, entry.blue].map fun n => UInt8.ofNat n.toNat) := by
    induction palette with
    | nil => rfl
    | cons entry rest ih =>
      have hrest := ih fun entry hmem => h entry (List.mem_cons_of_mem _ hmem)
      simp only [paletteElements, List.map_cons, raw_paletteEntry (h entry List.mem_cons_self),
        collect_ok_cons] at hrest ⊢
      rw [hrest]
      rfl
  rw [paletteArray_eq]
  simp only [Field.raw, Value.rawElements, valueRaws_map_field, hcollect]
  simp [Except.map, paletteOctets, List.flatMap]

end Png

end ScriptedPng
