import Mathlib.Data.List.Forall2
import ScriptedPng.Proofs.Png.Samples

/-!
# The passes share out the pixels

Complete pixel data has a pixel for each position of the image. Each pass takes the pixels of some
columns of some rows, and every pixel is taken at one place of one pass. So the pixels can be put
back to where they come from, which gives the pixel data again.

## Main definitions

* `Pass.position` — where a pass takes its pixels from.
* `Png.pixelIn`, `Pass.pixelRows` — the pixel at a position of complete pixel data, and the rows of
  those that a pass takes.
* `Pass.Takes` — the rows that a pass takes, pixel by pixel.
* `Png.deinterlace` — the pixel data with the pixels of all passes back at their positions.
* `Png.Shares` — rows of passes share out the pixels of an image.

## Main statements

* `Png.exists_position_iff` — the table of passes says from where a pass takes pixels.
* `Png.existsUnique_position` — every pixel is taken at one place.
* `IsComplete.shares` — the rows of an interlaced image share out its pixels.
* `IsComplete.subImages_partition` — the rows of complete pixel data, interlaced or not.
-/

namespace ScriptedPng

namespace Octets

/-- A piece begins behind all pieces in front of it. -/
theorem getD_pieces (n k : Nat) (octets : Octets) :
    (pieces n octets)[k]?.getD [] = (octets.drop (k * (n + 1))).take (n + 1) := by
  induction k generalizing octets with
  | zero => cases octets <;> simp [pieces]
  | succ k ih =>
    cases octets with
    | nil => simp [pieces]
    | cons octet rest =>
      rw [pieces, List.getElem?_cons_succ, ih, List.drop_drop, Nat.succ_mul,
        show k * (n + 1) + (n + 1) = n + k * (n + 1) + 1 by omega, List.drop_succ_cons]

end Octets

namespace Png

variable {image : Image} {data : Octets} {width height : Nat}

/-! ## Steps -/

theorem lt_stepCount_iff {first step limit i : Nat} (h : 0 < step) :
    i < stepCount first step limit ↔ first + i * step < limit := by
  rw [stepCount, ← Nat.succ_le_iff, Nat.le_div_iff_mul_le h, Nat.succ_mul]
  omega

theorem steps_eq_map (first step limit : Nat) :
    steps first step limit =
      (List.range (stepCount first step limit)).map fun i => first + i * step := by
  refine List.ext_getElem (by simp [steps]) fun i _ _ => ?_
  simp [steps, Nat.mul_comm step]

/-- The numbers that steps meet are those with the same remainder. -/
theorem exists_step_iff {first step n : Nat} (h : first < step) :
    (∃ i, first + i * step = n) ↔ n % step = first := by
  constructor
  · rintro ⟨i, rfl⟩
    rw [Nat.add_mul_mod_self_right, Nat.mod_eq_of_lt h]
  · rintro rfl
    exact ⟨n / step, by rw [Nat.mul_comm, Nat.mod_add_div]⟩

/-! ## Positions -/

/-- Where the pixel in column `i` of row `j` of a pass is taken from. -/
def Pass.position (pass : Pass) (j i : Nat) : Position :=
  (pass.y + j * pass.dy, pass.x + i * pass.dx)

/-- All positions of an image with the given size, row by row. -/
def grid (width height : Nat) : List Position :=
  (List.range height).flatMap fun row => (List.range width).map (row, ·)

theorem mem_grid_iff {row column : Nat} :
    (row, column) ∈ grid width height ↔ row < height ∧ column < width := by
  simp [grid]

/-- Passes begin within their first steps. -/
theorem lt_of_mem_adam7 {pass : Pass} (h : pass ∈ adam7) : pass.x < pass.dx ∧ pass.y < pass.dy := by
  revert pass
  decide

theorem Pass.positions_eq_map (pass : Pass) (width height : Nat) :
    pass.positions width height = (List.range (stepCount pass.y pass.dy height)).map fun j =>
      (List.range (stepCount pass.x pass.dx width)).map (pass.position j) := by
  simp only [positions, steps_eq_map, List.map_map]
  rfl

/-- The table of passes says from where a pass takes pixels. -/
theorem exists_position_iff {entry : Nat × Pass} (h : entry ∈ numberedPasses) {row column : Nat} :
    (∃ j i, entry.2.position j i = (row, column)) ↔ passOf row column = entry.1 := by
  obtain ⟨hx, hy⟩ := lt_of_mem_adam7 (List.of_mem_zip h).2
  rw [passOf_eq_iff h, ← exists_step_iff hx, ← exists_step_iff hy]
  simp only [Pass.position, Prod.mk.injEq, exists_and_left, exists_and_right]

/-- The passes of an image are those that take a pixel of it. -/
theorem mem_passes_iff {pass : Pass} : pass ∈ passes image ↔ pass ∈ adam7 ∧
    ∃ j i, pass.position j i ∈ grid image.width.toNat image.height.toNat := by
  rw [passes, List.mem_filter, decide_eq_true_eq, Pass.Meets]
  refine and_congr_right fun _ => ⟨fun hmeets => ⟨0, 0, ?_⟩, ?_⟩
  · rw [Pass.position, mem_grid_iff]
    omega
  · rintro ⟨j, i, hmem⟩
    rw [Pass.position, mem_grid_iff] at hmem
    omega

/-- Every pixel is taken at one place: the table has one number for it. -/
theorem existsUnique_position {position : Position}
    (h : position ∈ grid image.width.toNat image.height.toNat) :
    ∃! place : Pass × Nat × Nat,
      place.1 ∈ passes image ∧ place.1.position place.2.1 place.2.2 = position := by
  obtain ⟨row, column⟩ := position
  have hnumber : ∀ n ∈ [1, 2, 3, 4, 5, 6, 7], ∃ entry ∈ numberedPasses, entry.1 = n := by decide
  have hnumbered : ∀ pass ∈ adam7, ∃ entry ∈ numberedPasses, entry.2 = pass := by decide
  have hone : ∀ entry ∈ numberedPasses, ∀ other ∈ numberedPasses,
      entry.1 = other.1 → entry.2 = other.2 := by decide
  obtain ⟨entry, hentry, hnumber⟩ := hnumber _ (passOf_mem row column)
  obtain ⟨j, i, hposition⟩ := (exists_position_iff hentry).2 hnumber.symm
  have hadam7 := (List.of_mem_zip hentry).2
  refine ⟨(entry.2, j, i), ⟨mem_passes_iff.2 ⟨hadam7, j, i, hposition ▸ h⟩, hposition⟩, ?_⟩
  rintro ⟨pass, j', i'⟩ ⟨hpass, hplace⟩
  obtain ⟨other, hother, rfl⟩ := hnumbered pass (mem_passes_iff.1 hpass).1
  have hnumber' := (exists_position_iff hother).1 ⟨j', i', hplace⟩
  have hsame : other.2 = entry.2 := hone _ hother _ hentry (hnumber'.symm.trans hnumber.symm)
  obtain ⟨hx, hy⟩ := lt_of_mem_adam7 hadam7
  dsimp only at hplace
  rw [hsame] at hplace ⊢
  obtain ⟨hrow, hcolumn⟩ := Prod.mk.inj (hplace.trans hposition.symm)
  have hj := Nat.eq_of_mul_eq_mul_right (by omega) (Nat.add_left_cancel hrow)
  have hi := Nat.eq_of_mul_eq_mul_right (by omega) (Nat.add_left_cancel hcolumn)
  rw [hj, hi]

/-! ## Pixels of complete data -/

/-- The pixel at a position of complete pixel data. -/
def pixelIn (image : Image) (data : Octets) (position : Position) : Octets :=
  let index := position.1 * image.width.toNat + position.2
  (data.drop (index * image.pixelSize.toNat)).take image.pixelSize.toNat

/-- The rows of the positions of a pass, with their pixels. -/
def Pass.pixelRows (pass : Pass) (image : Image) (data : Octets) : List Octets :=
  (pass.positions image.width.toNat image.height.toNat).map (·.flatMap (pixelIn image data))

/-- A row of complete pixel data has the pixels of its positions. -/
theorem IsComplete.getD_pieces (h : IsComplete image data) {all : List Octets}
    (hrows : rows image data = .ok all) {row column : Nat} (hcolumn : column < image.width.toNat) :
    ((all[row]?.getD []).pieces (image.pixelSize.toNat - 1))[column]?.getD [] =
      pixelIn image data (row, column) := by
  have hpixel := image.one_le_pixelSize
  obtain ⟨hwidth, -, -⟩ := h
  have hsize : 0 < image.width * image.pixelSize :=
    Int.mul_pos hwidth (Int.lt_of_lt_of_le (by decide) hpixel)
  simp only [rows] at hrows
  rw [if_neg (Int.ne_of_gt hsize), if_neg (Int.not_lt.2 (Int.le_of_lt hsize))] at hrows
  obtain rfl := Except.ok.inj hrows
  have hrow : (image.width * image.pixelSize).toNat =
      image.width.toNat * image.pixelSize.toNat := Int.toNat_mul (by omega) (by omega)
  have hone : image.pixelSize.toNat - 1 + 1 = image.pixelSize.toNat := by omega
  have hinside : (column + 1) * image.pixelSize.toNat ≤ image.width.toNat * image.pixelSize.toNat :=
    Nat.mul_le_mul_right _ hcolumn
  rw [Octets.getD_pieces, Octets.getD_pieces, hone, Nat.sub_add_cancel (by omega), hrow,
    List.drop_take, List.drop_drop, List.take_take, pixelIn, Nat.min_eq_left, ← Nat.mul_assoc,
    ← Nat.add_mul]
  rw [Nat.succ_mul] at hinside
  omega

/-- Each row has as many pixels as the image is wide. -/
theorem length_pieces_row {all : List Octets}
    (hwidth : ∀ row ∈ all, (row.length : Int) = image.width * image.pixelSize) {row : Nat}
    (hrow : row < all.length) :
    ((all[row]?.getD []).pieces (image.pixelSize.toNat - 1)).length = image.width.toNat := by
  rw [List.getElem?_eq_getElem hrow, Option.getD_some]
  exact length_pixels (hwidth all[row] (List.getElem_mem hrow))

/-- The rows that a pass takes of complete data are those of its positions. -/
theorem IsComplete.taken_eq (h : IsComplete image data) {all : List Octets}
    (hrows : rows image data = .ok all) (hheight : all.length = image.height.toNat)
    (hwidth : ∀ row ∈ all, (row.length : Int) = image.width * image.pixelSize) (pass : Pass) :
    pass.taken image all = pass.pixelRows image data := by
  rw [Pass.taken, Pass.pixelRows, Pass.positions, List.map_map]
  refine List.map_congr_left fun row hmem => ?_
  have hlength := length_pieces_row hwidth (hheight ▸ lt_of_mem_steps hmem)
  rw [Pass.selectRow_eq_join, Pass.join, Function.comp_apply, List.flatMap_map]
  simp only [List.size_toArray, List.getElem?_toArray, hlength]
  exact List.flatMap_congr fun column hcolumn => h.getD_pieces hrows (lt_of_mem_steps hcolumn)

/-- The rows that are stored are those of the positions, pass by pass. -/
theorem IsComplete.subImages_adam7 (h : IsComplete image data) (hadam7 : image.interlace = .adam7) :
    subImages image data = .ok ((passes image).map (·.pixelRows image data)) := by
  obtain ⟨all, hrows, hheight, hwidth, -⟩ := h.exists_rows
  simp only [subImages, hrows, hadam7, bind, Except.bind]
  refine mapM_eq_map_ok fun pass _ => ?_
  rw [pass.select_eq_ok hheight, h.taken_eq hrows hheight hwidth]

/-- A pixel of complete data is there as a whole. -/
theorem IsComplete.length_pixelIn (h : IsComplete image data) {position : Position}
    (hmem : position ∈ grid image.width.toNat image.height.toNat) :
    (pixelIn image data position).length = image.pixelSize.toNat := by
  obtain ⟨row, column⟩ := position
  obtain ⟨hrow, hcolumn⟩ := mem_grid_iff.1 hmem
  obtain ⟨hwidth, hheight, hlength⟩ := h
  have hpixel := image.one_le_pixelSize
  have hnat : data.length =
      image.height.toNat * image.width.toNat * image.pixelSize.toNat := by
    have harea : 0 ≤ image.height * image.width := Int.mul_nonneg (by omega) (by omega)
    rw [← Int.toNat_mul (by omega) (by omega), ← Int.toNat_mul harea (by omega),
      Int.mul_comm image.height, ← hlength, Int.toNat_natCast]
  have hindex : row * image.width.toNat + column + 1 ≤ image.height.toNat * image.width.toNat := by
    have hrows := Nat.mul_le_mul_right image.width.toNat (Nat.succ_le_of_lt hrow)
    rw [Nat.succ_mul] at hrows
    omega
  have hoctets := Nat.mul_le_mul_right image.pixelSize.toNat hindex
  rw [Nat.succ_mul, ← hnat] at hoctets
  rw [pixelIn, List.length_take, List.length_drop]
  dsimp only
  omega

/-- The pixels of all positions are the pixel data. -/
theorem IsComplete.flatMap_pixelIn (h : IsComplete image data) :
    (grid image.width.toNat image.height.toNat).flatMap (pixelIn image data) = data := by
  obtain ⟨all, hrows, hheight, hwidth, hdata⟩ := h.exists_rows
  have hrow : ∀ row ∈ List.range image.height.toNat,
      ((List.range image.width.toNat).map (row, ·)).flatMap (pixelIn image data) =
        all[row]?.getD [] := by
    intro row hmem
    have hlength := length_pieces_row hwidth (hheight ▸ List.mem_range.1 hmem)
    rw [List.flatMap_map, ← Octets.flatten_pieces (image.pixelSize.toNat - 1) (all[row]?.getD []),
      Picture.eq_map_range hlength [], ← List.flatMap_def]
    exact List.flatMap_congr fun column hcolumn =>
      (h.getD_pieces hrows (List.mem_range.1 hcolumn)).symm
  rw [grid, List.flatMap_assoc, List.flatMap_congr hrow, List.flatMap_def,
    ← Picture.eq_map_range hheight [], hdata]

/-! ## Rows of passes -/

/-- The rows that a pass takes of pixel data. Row `j` has the pixels of every `dx`-th column from
`x` on of the row `y + j * dy`. -/
structure Pass.Takes (image : Image) (data : Octets) (pass : Pass) (sub : List Octets) : Prop where
  lt_length_iff : ∀ j, j < sub.length ↔ pass.y + j * pass.dy < image.height.toNat
  row_eq : ∀ j row, sub[j]? = some row →
    ∃ n, (∀ i, i < n ↔ pass.x + i * pass.dx < image.width.toNat) ∧
      row = (List.range n).flatMap fun i => pixelIn image data (pass.position j i)

/-- The positions of the pixels of an interlaced image, in the order in which they are stored. -/
def storedOrder (image : Image) : List Position :=
  (passes image).flatMap fun pass =>
    (pass.positions image.width.toNat image.height.toNat).flatten

/-- The pixel data with the pixels of all passes back at their positions. -/
def deinterlace (image : Image) (subs : List (List Octets)) : Octets :=
  let pixels := subs.flatten.flatMap (Octets.pieces (image.pixelSize.toNat - 1))
  let placed := (storedOrder image).zip pixels
  (grid image.width.toNat image.height.toNat).flatMap fun position =>
    (placed.lookup position).getD []

/-- The rows of the passes of an interlaced image share out the pixels of its pixel data. -/
structure Shares (image : Image) (data : Octets) (subs : List (List Octets)) : Prop where
  takes : List.Forall₂ (Pass.Takes image data) (passes image) subs
  row_ne_nil : ∀ sub ∈ subs, sub ≠ [] ∧ ∀ row ∈ sub, row ≠ []
  deinterlace_eq : deinterlace image subs = data

/-- The rows of its positions are those that a pass takes. -/
theorem Pass.takes_pixelRows {pass : Pass} (h : pass ∈ adam7) (image : Image) (data : Octets) :
    pass.Takes image data (pass.pixelRows image data) := by
  obtain ⟨hx, hy⟩ := lt_of_mem_adam7 h
  rw [Pass.pixelRows, Pass.positions_eq_map]
  constructor
  · intro j
    rw [List.length_map, List.length_map, List.length_range]
    exact lt_stepCount_iff (by omega)
  · intro j row hrow
    refine ⟨stepCount pass.x pass.dx image.width.toNat, fun i => lt_stepCount_iff (by omega), ?_⟩
    obtain ⟨hj, rfl⟩ := List.getElem?_eq_some_iff.1 hrow
    simp only [List.getElem_map, List.getElem_range, List.flatMap_map]

/-- A pass of an image takes rows, and pixels in each of them. -/
theorem IsComplete.row_ne_nil (h : IsComplete image data) {pass : Pass}
    (hpass : pass ∈ passes image) {sub : List Octets} (htakes : pass.Takes image data sub) :
    sub ≠ [] ∧ ∀ row ∈ sub, row ≠ [] := by
  obtain ⟨-, j, i, hmem⟩ := mem_passes_iff.1 hpass
  obtain ⟨hrow, hcolumn⟩ := mem_grid_iff.1 hmem
  constructor
  · exact List.ne_nil_of_length_pos (Nat.zero_lt_of_lt ((htakes.lt_length_iff j).2 hrow))
  · intro row hrow
    obtain ⟨j', hj'⟩ := List.getElem?_of_mem hrow
    obtain ⟨n, hn, rfl⟩ := htakes.row_eq j' row hj'
    have hposition : pass.position j' i ∈ grid image.width.toNat image.height.toNat :=
      mem_grid_iff.2 ⟨(htakes.lt_length_iff j').1 (List.getElem?_eq_some_iff.1 hj').1, hcolumn⟩
    have hpixel := h.length_pixelIn hposition
    have hsize := image.one_le_pixelSize
    intro hnil
    have := List.flatMap_eq_nil_iff.1 hnil i (List.mem_range.2 ((hn i).2 hcolumn))
    rw [this, List.length_nil] at hpixel
    omega

theorem Pass.mem_grid {pass : Pass} {positions : List Position}
    (hpositions : positions ∈ pass.positions width height) {position : Position}
    (hposition : position ∈ positions) : position ∈ grid width height := by
  obtain ⟨row, hrow, rfl⟩ := List.mem_map.1 hpositions
  obtain ⟨column, hcolumn, rfl⟩ := List.mem_map.1 hposition
  exact mem_grid_iff.2 ⟨lt_of_mem_steps hrow, lt_of_mem_steps hcolumn⟩

/-- Some pass takes each pixel. -/
theorem mem_storedOrder {position : Position}
    (h : position ∈ grid image.width.toNat image.height.toNat) : position ∈ storedOrder image := by
  obtain ⟨row, column⟩ := position
  obtain ⟨hrow, hcolumn⟩ := mem_grid_iff.1 h
  obtain ⟨pass, hpass, hy, hx⟩ := exists_pass hrow hcolumn
  exact List.mem_flatMap.2 ⟨pass, hpass, List.mem_flatten.2
    ⟨_, List.mem_map_of_mem hy, List.mem_map_of_mem hx⟩⟩

/-- The pixels of the rows of the positions are those of the positions. -/
theorem IsComplete.flatMap_pixelRows (h : IsComplete image data) (pass : Pass) :
    (pass.pixelRows image data).flatMap (Octets.pieces (image.pixelSize.toNat - 1)) =
      (pass.positions image.width.toNat image.height.toNat).flatten.map (pixelIn image data) := by
  have hrow : ∀ positions ∈ pass.positions image.width.toNat image.height.toNat,
      Octets.pieces (image.pixelSize.toNat - 1) (positions.flatMap (pixelIn image data)) =
        positions.map (pixelIn image data) := by
    intro positions hpositions
    rw [List.flatMap_def, Octets.pieces_flatten]
    intro pixel hpixel
    obtain ⟨position, hposition, rfl⟩ := List.mem_map.1 hpixel
    have hsize := image.one_le_pixelSize
    rw [h.length_pixelIn (Pass.mem_grid hpositions hposition)]
    omega
  rw [Pass.pixelRows, List.flatMap_map, List.flatMap_congr hrow, List.map_flatten, List.flatMap_def]

/-- The pixels of the rows of the positions are found where the positions say. -/
theorem IsComplete.deinterlace_pixelRows (h : IsComplete image data) :
    deinterlace image ((passes image).map (·.pixelRows image data)) = data := by
  have hpixels : ((passes image).map (·.pixelRows image data)).flatten.flatMap
      (Octets.pieces (image.pixelSize.toNat - 1)) =
      (storedOrder image).map (pixelIn image data) := by
    rw [← List.flatMap_def, List.flatMap_assoc, storedOrder, List.map_flatMap]
    exact List.flatMap_congr fun pass _ => h.flatMap_pixelRows pass
  have hlookup : ∀ position ∈ grid image.width.toNat image.height.toNat,
      (((storedOrder image).zip ((storedOrder image).map (pixelIn image data))).lookup
        position).getD [] = pixelIn image data position := by
    intro position hposition
    rw [← List.map_prod_left_eq_zip, Picture.lookup_map _ (mem_storedOrder hposition),
      Option.getD_some]
  rw [deinterlace, hpixels, List.flatMap_congr hlookup, h.flatMap_pixelIn]

/-- The rows of an interlaced image share out its pixels. -/
theorem IsComplete.shares (h : IsComplete image data) (hadam7 : image.interlace = .adam7) :
    ∃ subs, subImages image data = .ok subs ∧ Shares image data subs := by
  refine ⟨_, h.subImages_adam7 hadam7, ?_, ?_, h.deinterlace_pixelRows⟩
  · rw [List.forall₂_map_right_iff, List.forall₂_same]
    exact fun pass hpass => Pass.takes_pixelRows (mem_passes_iff.1 hpass).1 image data
  · intro sub hsub
    obtain ⟨pass, hpass, rfl⟩ := List.mem_map.1 hsub
    exact h.row_ne_nil hpass (Pass.takes_pixelRows (mem_passes_iff.1 hpass).1 image data)

/-- The rows of complete pixel data. With interlacing those of the passes that take a pixel share
out the pixels; without, they are the pixel data. -/
theorem IsComplete.subImages_partition (h : IsComplete image data) :
    (image.interlace = .adam7 →
      (passes image).Sublist adam7 ∧
      (∀ pass, pass ∈ passes image ↔ pass ∈ adam7 ∧
        ∃ j i, pass.position j i ∈ grid image.width.toNat image.height.toNat) ∧
      (∀ entry ∈ numberedPasses, ∀ row column,
        (∃ j i, entry.2.position j i = (row, column)) ↔ passOf row column = entry.1) ∧
      (∀ position ∈ grid image.width.toNat image.height.toNat,
        ∃! place : Pass × Nat × Nat,
          place.1 ∈ passes image ∧ place.1.position place.2.1 place.2.2 = position) ∧
      ∃ subs, subImages image data = .ok subs ∧ Shares image data subs) ∧
    (∀ (pass : Pass) (row : Octets), pass.slice row = pass.join 1 row) ∧
    (image.interlace = .none →
      ∃ all, subImages image data = .ok [all] ∧ all.flatten = data ∧
        (all.length : Int) = image.height ∧
        ∀ row ∈ all, (row.length : Int) = image.width * image.pixelSize) := by
  refine ⟨fun hadam7 => ⟨List.filter_sublist, fun pass => mem_passes_iff,
    fun entry hentry row column => exists_position_iff hentry,
    fun position hposition => existsUnique_position hposition, h.shares hadam7⟩,
    Pass.slice_eq_join, fun hnone => ?_⟩
  obtain ⟨all, hrows, hheight, hwidth, hdata⟩ := h.exists_rows
  have hpositive := h.height_pos
  refine ⟨all, ?_, hdata, by omega, hwidth⟩
  simp only [subImages, hrows, hnone, bind, Except.bind]
  rfl

/-- Two rows of two pixels of two octets fill the first and the sixth pass with a pixel each and the
seventh with a row. -/
theorem IsComplete.subImages_partition_square :
    let square : Image := { width := 2, height := 2, bitDepth := 16, interlace := .adam7 }
    let data : Octets := [0, 0, 1, 1, 2, 2, 3, 3]
    IsComplete square data ∧ Shares square data [[[0, 0]], [[1, 1]], [[2, 2, 3, 3]]] := by
  intro square data
  have hcomplete : IsComplete square data := ⟨by decide, by decide, by decide⟩
  obtain ⟨-, -, -, -, subs, hsubs, hshares⟩ := hcomplete.subImages_partition.1 rfl
  have heq : subImages square data = .ok [[[0, 0]], [[1, 1]], [[2, 2, 3, 3]]] := by decide +kernel
  exact ⟨hcomplete, Except.ok.inj (hsubs.symm.trans heq) ▸ hshares⟩

end Png

end ScriptedPng
