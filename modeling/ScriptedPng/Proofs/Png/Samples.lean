import ScriptedPng.Proofs.Png.Scanlines

/-!
# Samples that can be stored

Complete pixel data is stored just if all of its samples fit their bits. Whatever the passes take of
it comes from the pixel data, and all of the pixel data is taken, so an octet that is too large is
found in some row.

## Main definitions

* `Png.IsComplete` — pixel data holds all pixels of an image.
* `Png.SamplesFit` — the samples of pixel data fit their bits.

## Main statements

* `IsComplete.exists_subImages` — the rows that are stored hold the octets of the pixel data.
* `IsComplete.imageData_eq_ok_iff` — pixel data is stored if and only if its samples fit.
* `IsComplete.imageData_eq_error` — otherwise the samples are the reason.
-/

namespace ScriptedPng

/-! ## Results that are all there -/

/-- All results are there if and only if each one is. -/
theorem exists_mapM_eq_ok_iff {ε α β : Type} {f : α → Except ε β} {items : List α} :
    (∃ values, items.mapM f = .ok values) ↔ ∀ item ∈ items, ∃ value, f item = .ok value := by
  induction items with
  | nil => simp [pure, Except.pure]
  | cons item rest ih =>
    rw [List.forall_mem_cons, ← ih, List.mapM_cons]
    cases f item with
    | error fault => simp [bind, Except.bind]
    | ok value => cases rest.mapM f <;> simp [bind, Except.bind, pure, Except.pure]

/-- If each result is there, the list of them is. -/
theorem mapM_eq_map_ok {ε α β : Type} {f : α → Except ε β} {g : α → β} {items : List α}
    (h : ∀ item ∈ items, f item = .ok (g item)) : items.mapM f = .ok (items.map g) := by
  induction items with
  | nil => rfl
  | cons item rest ih =>
    obtain ⟨hitem, hrest⟩ := List.forall_mem_cons.1 h
    rw [List.mapM_cons, hitem, ih hrest]
    rfl

namespace Octets

/-- Pieces whose size goes into the number of octets are all of this size. -/
theorem exists_pieces {n k : Nat} {octets : Octets} (h : octets.length = k * (n + 1)) :
    (pieces n octets).length = k ∧ ∀ piece ∈ pieces n octets, piece.length = n + 1 := by
  refine ⟨length_pieces h, ?_⟩
  induction k generalizing octets with
  | zero =>
    obtain rfl : octets = [] := List.length_eq_zero_iff.1 (by simpa using h)
    simp [pieces]
  | succ k ih =>
    obtain ⟨piece, rest, rfl, hpiece, hrest⟩ := exists_piece_append h
    rw [pieces_append hpiece]
    exact List.forall_mem_cons.2 ⟨hpiece, ih hrest⟩

theorem mem_iff_mem_pieces {n : Nat} {octets : Octets} {octet : UInt8} :
    octet ∈ octets ↔ ∃ piece ∈ pieces n octets, octet ∈ piece := by
  rw [← List.mem_flatten, flatten_pieces]

end Octets

namespace Png

variable {image : Image} {data : Octets}

/-! ## Rows of complete data -/

/-- The pixel data holds all pixels of an image that has a size. -/
structure IsComplete (image : Image) (data : Octets) : Prop where
  width_pos : 0 < image.width
  height_pos : 0 < image.height
  length_eq : (data.length : Int) = image.width * image.height * image.pixelSize

/-- An image with a header has a size, so all that is asked of its pixel data is the length. -/
theorem Header.Of.isComplete {header : Header} (h : header.Of image)
    (hlength : (data.length : Int) = image.width * image.height * image.pixelSize) :
    IsComplete image data := by
  have hwidth := h.legal.width_pos
  have hheight := h.legal.height_pos
  refine ⟨?_, ?_, hlength⟩
  · rw [h.width]
    omega
  · rw [h.height]
    omega

/-- The pixels of a row of complete data, as many as the image is wide. -/
theorem length_pixels {row : Octets}
    (h : (row.length : Int) = image.width * image.pixelSize) :
    (row.pieces (image.pixelSize.toNat - 1)).length = image.width.toNat := by
  have hpixel := image.one_le_pixelSize
  refine Octets.length_pieces ?_
  rw [Nat.sub_add_cancel (by omega)]
  by_cases hwidth : 0 ≤ image.width
  · rw [← Int.toNat_mul hwidth (by omega), ← h, Int.toNat_natCast]
  · have : image.width * image.pixelSize < 0 := Int.mul_neg_of_neg_of_pos (by omega) (by omega)
    omega

/-- Complete data falls into rows of pixels. -/
theorem IsComplete.exists_rows (h : IsComplete image data) :
    ∃ all, rows image data = .ok all ∧ all.length = image.height.toNat ∧
      (∀ row ∈ all, (row.length : Int) = image.width * image.pixelSize) ∧ all.flatten = data := by
  obtain ⟨hwidth, hheight, hlength⟩ := h
  obtain ⟨all, hrows, hall⟩ := rows_of_complete hwidth (Int.le_of_lt hheight) hlength
  have hsize : 0 < image.width * image.pixelSize :=
    Int.mul_pos hwidth (Int.lt_of_lt_of_le (by decide) image.one_le_pixelSize)
  refine ⟨all, hrows, hall, ?_⟩
  simp only [rows] at hrows
  rw [if_neg (Int.ne_of_gt hsize), if_neg (Int.not_lt.2 (Int.le_of_lt hsize))] at hrows
  obtain rfl := Except.ok.inj hrows
  have hnat : data.length =
      image.height.toNat * ((image.width * image.pixelSize).toNat - 1 + 1) := by
    rw [Nat.sub_add_cancel (by omega), ← Int.toNat_mul (by omega) (by omega), Int.mul_left_comm,
      ← Int.mul_assoc, ← hlength, Int.toNat_natCast]
  refine ⟨fun row hmem => ?_, Octets.flatten_pieces _ _⟩
  rw [(Octets.exists_pieces hnat).2 row hmem]
  omega

/-! ## What the passes take -/

/-- A pass takes octets of the row only, and the pixels in its columns. -/
theorem mem_selectRow_iff (pass : Pass) (size : Nat) (row : Octets) (octet : UInt8) :
    octet ∈ pass.selectRow size row ↔
      ∃ column ∈ steps pass.x pass.dx (row.pieces (size - 1)).length,
        ∃ pixel, (row.pieces (size - 1))[column]? = some pixel ∧ octet ∈ pixel := by
  simp only [Pass.selectRow_eq_join, Pass.join, List.mem_flatMap, List.size_toArray,
    List.getElem?_toArray]
  refine exists_congr fun column => and_congr_right fun _ => ?_
  cases (row.pieces (size - 1))[column]? <;> simp

/-- The rows that a pass takes of complete data. -/
def Pass.taken (pass : Pass) (image : Image) (all : List Octets) : List Octets :=
  (steps pass.y pass.dy image.height.toNat).map fun index =>
    pass.selectRow image.pixelSize.toNat (all[index]?.getD [])

theorem Pass.select_eq_ok {all : List Octets} (h : all.length = image.height.toNat) (pass : Pass) :
    pass.select image all.toArray = .ok (pass.taken image all) := by
  rw [Pass.select, if_pos (by simp [h])]
  simp [Pass.taken]

/-- Every pixel of an interlaced image is taken by some pass. -/
theorem exists_pass {row column : Nat} (hrow : row < image.height.toNat)
    (hcolumn : column < image.width.toNat) :
    ∃ pass ∈ passes image, row ∈ steps pass.y pass.dy image.height.toNat ∧
      column ∈ steps pass.x pass.dx image.width.toNat := by
  -- The order of positions depends on the size only.
  let header : Header := ⟨image.width.toNat, image.height.toNat, 8, .grayscale, .adam7⟩
  have horder : header.order = (passes image).flatMap fun pass =>
      pass.positions header.width header.height :=
    Header.order_adam7 rfl (Int.toNat_of_nonneg (by omega)).symm
      (Int.toNat_of_nonneg (by omega)).symm
  have hmem := header.mem_order hrow hcolumn
  rw [horder] at hmem
  obtain ⟨positions, hpositions, hposition⟩ := List.mem_flatten.1 hmem
  obtain ⟨pass, hpass, htaken⟩ := List.mem_flatMap.1 hpositions
  obtain ⟨found, hfound, rfl⟩ := List.mem_map.1 htaken
  obtain ⟨_, hother, heq⟩ := List.mem_map.1 hposition
  cases heq
  exact ⟨pass, hpass, hfound, hother⟩

/-- The rows that are stored are there, and hold the octets of the pixel data. -/
theorem IsComplete.exists_subImages (h : IsComplete image data) :
    ∃ subs, subImages image data = .ok subs ∧
      ∀ octet, (∃ row ∈ subs.flatten, octet ∈ row) ↔ octet ∈ data := by
  obtain ⟨all, hrows, hheight, hwidth, hdata⟩ := h.exists_rows
  have hsome {octet : UInt8} : octet ∈ data ↔ ∃ row ∈ all, octet ∈ row := by
    rw [← hdata, List.mem_flatten]
  simp only [subImages, hrows, bind, Except.bind]
  cases image.interlace with
  | none => exact ⟨[all], rfl, fun octet => by rw [hsome]; simp⟩
  | adam7 =>
    refine ⟨(passes image).map (Pass.taken · image all),
      mapM_eq_map_ok fun pass _ => pass.select_eq_ok hheight, fun octet => .trans ?_ hsome.symm⟩
    constructor
    · rintro ⟨taken, hmem, hoctet⟩
      obtain ⟨sub, hsub, hmem⟩ := List.mem_flatten.1 hmem
      obtain ⟨pass, -, rfl⟩ := List.mem_map.1 hsub
      obtain ⟨index, -, rfl⟩ := List.mem_map.1 hmem
      obtain ⟨column, -, pixel, hpixel, hoctet⟩ := (mem_selectRow_iff ..).1 hoctet
      have hpiece := Octets.mem_iff_mem_pieces.2 ⟨pixel, List.mem_of_getElem? hpixel, hoctet⟩
      cases hrow : all[index]? with
      | none => simp [hrow] at hpiece
      | some row => exact ⟨row, List.mem_of_getElem? hrow, by simpa [hrow] using hpiece⟩
    · rintro ⟨row, hmem, hoctet⟩
      obtain ⟨pixel, hpixel, hoctet⟩ :=
        (Octets.mem_iff_mem_pieces (n := image.pixelSize.toNat - 1)).1 hoctet
      obtain ⟨index, hindex⟩ := List.getElem?_of_mem hmem
      obtain ⟨column, hcolumn⟩ := List.getElem?_of_mem hpixel
      have hlength := length_pixels (hwidth row hmem)
      have hindexLt := hheight ▸ (List.getElem?_eq_some_iff.1 hindex).1
      have hcolumnLt := hlength ▸ (List.getElem?_eq_some_iff.1 hcolumn).1
      obtain ⟨pass, hpass, hy, hx⟩ := exists_pass hindexLt hcolumnLt
      refine ⟨_, List.mem_flatten.2 ⟨_, List.mem_map_of_mem hpass, List.mem_map_of_mem hy⟩, ?_⟩
      rw [hindex, Option.getD_some, mem_selectRow_iff, hlength]
      exact ⟨column, hx, pixel, hcolumn, hoctet⟩

/-- Scanlines are those of the rows that are stored. -/
theorem IsComplete.scanlines_eq (h : IsComplete image data) {subs : List (List Octets)}
    (hsubs : subImages image data = .ok subs) :
    scanlines image data = subs.flatten.mapM (packRow image.bitDepth) := by
  obtain ⟨all, hrows, hheight, -, -⟩ := h.exists_rows
  simp only [subImages, scanlines, hrows, bind, Except.bind] at hsubs ⊢
  cases hinterlace : image.interlace with
  | none =>
    rw [hinterlace] at hsubs
    obtain rfl := Except.ok.inj hsubs
    simp
  | adam7 =>
    simp only [hinterlace] at hsubs ⊢
    rw [mapM_eq_map_ok fun pass _ => pass.select_eq_ok hheight] at hsubs
    obtain rfl := Except.ok.inj hsubs
    have hpack := Picture.mapM_flatMap (Pass.taken · image all) (packRow image.bitDepth)
      (passes image)
    rw [← List.flatMap_def, hpack]
    simp only [Pass.select_eq_ok hheight]
    split <;> rename_i hpacked <;> rw [hpacked] <;> rfl

/-! ## Samples that fit -/

/-- Where samples are smaller than an octet, all octets of the pixel data fit the bit depth. -/
def SamplesFit (image : Image) (data : Octets) : Prop :=
  image.bitDepth < 8 → ∀ octet ∈ data, octet.toNat < 1 <<< image.bitDepth.toNat

instance (image : Image) (data : Octets) : Decidable (SamplesFit image data) :=
  inferInstanceAs (Decidable (_ → _))

theorem exists_packRow_iff {row : Octets} (hdepth : 0 < image.bitDepth) :
    (∃ line, packRow image.bitDepth row = .ok line) ↔ SamplesFit image row := by
  by_cases hwhole : 8 ≤ image.bitDepth
  · rw [packRow, if_pos hwhole]
    exact iff_of_true ⟨row, rfl⟩ fun hsmall => absurd hwhole (Int.not_le.2 hsmall)
  · obtain ⟨depth, heq⟩ := Int.eq_ofNat_of_zero_le (Int.le_of_lt hdepth)
    have hpos : 0 < depth := by omega
    have hsmall : depth < 8 := by omega
    rw [SamplesFit, heq, Int.toNat_natCast]
    simp only [packRow_eq_ok_iff hpos hsmall]
    constructor
    · rintro ⟨line, hfit, -⟩ -
      exact hfit
    · intro hfit
      exact ⟨_, hfit (by omega), rfl⟩

/-- Complete pixel data is stored if and only if its samples fit. -/
theorem IsComplete.imageData_eq_ok_iff (h : IsComplete image data) (hdepth : 0 < image.bitDepth) :
    (∃ raw, imageData image data = .ok raw) ↔ SamplesFit image data := by
  obtain ⟨subs, hsubs, hmem⟩ := h.exists_subImages
  have hlines : (∃ raw, imageData image data = .ok raw) ↔
      ∃ lines, scanlines image data = .ok lines := by
    rw [imageData]
    cases scanlines image data with
    | ok lines => simp
    | error fault => cases fault <;> simp
  rw [hlines, h.scanlines_eq hsubs, exists_mapM_eq_ok_iff]
  simp only [exists_packRow_iff hdepth]
  constructor
  · intro hrows hsmall octet hoctet
    obtain ⟨row, hrow, hoctet⟩ := (hmem octet).2 hoctet
    exact hrows row hrow hsmall octet hoctet
  · intro hfit row hrow hsmall octet hoctet
    exact hfit hsmall octet ((hmem octet).1 ⟨row, hrow, hoctet⟩)

/-- The bit depth of an image with a header is positive. -/
theorem Header.Of.imageData_eq_ok_iff {header : Header} (h : header.Of image)
    (hlength : (data.length : Int) = image.width * image.height * image.pixelSize) :
    (∃ raw, imageData image data = .ok raw) ↔ SamplesFit image data := by
  obtain ⟨-, hdepth, -, -⟩ := checkHeader_eq_ok h.checked
  have hpos := (Header.bitDepth_le hdepth).1
  exact (h.isComplete hlength).imageData_eq_ok_iff (by omega)

/-- If complete pixel data is not stored, its samples are the reason. -/
theorem IsComplete.imageData_eq_error (h : IsComplete image data) {failure : Failure}
    (hfailed : imageData image data = .error failure) :
    failure = .ofCause (.sampleOutOfRange image data) := by
  obtain ⟨hwidth, hheight, hlength⟩ := h
  simp only [imageData] at hfailed
  split at hfailed
  · cases hfailed
  · rename_i hscan
    cases fault_of_scanlines hwidth (Int.le_of_lt hheight) hlength hscan
  · cases hfailed
    rfl

end Png

end ScriptedPng
