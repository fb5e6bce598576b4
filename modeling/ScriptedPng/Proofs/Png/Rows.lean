import ScriptedPng.Png.Writer

/-!
# Rows of complete pixel data

Pixel data with all pixels of an image falls into as many rows as the image is high, all of the same
length. Every pass finds its rows then.

## Main statements

* `Octets.pieces_flatten` — pieces of the same size can be found again.
* `Png.rows_of_complete` — complete pixel data has all rows.
* `Png.fault_of_scanlines` — only a sample that is too large keeps complete data from being stored.
-/

namespace ScriptedPng

namespace Octets

theorem pieces_append {n : Nat} {piece rest : Octets} (h : piece.length = n + 1) :
    pieces n (piece ++ rest) = piece :: pieces n rest := by
  cases piece with
  | nil => simp at h
  | cons octet more =>
    have hmore : more.length = n := by simpa using h
    rw [List.cons_append, pieces]
    simp [← hmore]

/-- Pieces of the same size can be found again. -/
theorem pieces_flatten {n : Nat} {rows : List Octets} (h : ∀ row ∈ rows, row.length = n + 1) :
    pieces n rows.flatten = rows := by
  induction rows with
  | nil => rw [List.flatten_nil, pieces]
  | cons row rest ih =>
    rw [List.flatten_cons, pieces_append (h row List.mem_cons_self),
      ih fun row hmem => h row (List.mem_cons_of_mem _ hmem)]

/-- Octets that are enough for one more piece begin with one. -/
theorem exists_piece_append {n k : Nat} {octets : Octets}
    (h : octets.length = (k + 1) * (n + 1)) :
    ∃ piece rest, octets = piece ++ rest ∧ piece.length = n + 1 ∧ rest.length = k * (n + 1) := by
  have hle : n + 1 ≤ octets.length := by
    rw [h, Nat.succ_mul]
    omega
  refine ⟨_, _, (List.take_append_drop (n + 1) octets).symm, ?_, ?_⟩
  · rw [List.length_take, Nat.min_eq_left hle]
  · rw [List.length_drop, h, Nat.succ_mul, Nat.add_sub_cancel]

/-- There are as many pieces as their size goes into the number of octets. -/
theorem length_pieces {n k : Nat} {octets : Octets} (h : octets.length = k * (n + 1)) :
    (pieces n octets).length = k := by
  induction k generalizing octets with
  | zero =>
    obtain rfl : octets = [] := List.length_eq_zero_iff.1 (by simpa using h)
    rw [pieces, List.length_nil]
  | succ k ih =>
    obtain ⟨piece, rest, rfl, hpiece, hrest⟩ := exists_piece_append h
    rw [pieces_append hpiece, List.length_cons, ih hrest]

end Octets

namespace Png

variable {image : Image} {data : Octets}

/-- Complete pixel data has as many rows as the image is high. -/
theorem rows_of_complete (hwidth : 0 < image.width) (hheight : 0 ≤ image.height)
    (hlength : (data.length : Int) = image.width * image.height * image.pixelSize) :
    ∃ all, rows image data = .ok all ∧ all.length = image.height.toNat := by
  have hsize : 0 < image.width * image.pixelSize :=
    Int.mul_pos hwidth (Int.lt_of_lt_of_le (by decide) image.one_le_pixelSize)
  refine ⟨data.pieces ((image.width * image.pixelSize).toNat - 1), ?_, ?_⟩
  · simp only [rows]
    rw [if_neg (Int.ne_of_gt hsize), if_neg (Int.not_lt.2 (Int.le_of_lt hsize))]
  · refine Octets.length_pieces ?_
    rw [Nat.sub_add_cancel (by omega)]
    have hint : (data.length : Int) = image.height * (image.width * image.pixelSize) := by
      rw [hlength, Int.mul_comm image.width, Int.mul_assoc]
    rw [← Int.toNat_natCast data.length, hint, Int.toNat_mul hheight (Int.le_of_lt hsize)]

theorem mapM_eq_error {ε α β : Type} {f : α → Except ε β} {items : List α} {fault : ε}
    (h : items.mapM f = .error fault) : ∃ item ∈ items, f item = .error fault := by
  induction items with
  | nil => cases h
  | cons item rest ih =>
    rw [List.mapM_cons] at h
    cases hitem : f item with
    | error found =>
      simp only [hitem, bind, Except.bind, Except.error.injEq] at h
      exact ⟨item, List.mem_cons_self, h ▸ hitem⟩
    | ok value =>
      cases hrest : rest.mapM f with
      | error found =>
        simp only [hitem, hrest, bind, Except.bind, Except.error.injEq] at h
        obtain ⟨other, hmem, hother⟩ := ih (h ▸ hrest)
        exact ⟨other, List.mem_cons_of_mem _ hmem, hother⟩
      | ok values => simp [hitem, hrest, bind, Except.bind, pure, Except.pure] at h

theorem fault_of_packRow {depth : Int} {row : Octets} {fault : RowFault}
    (h : packRow depth row = .error fault) : fault = .largeSample := by
  simp only [packRow] at h
  split at h
  · cases h
  · split at h
    · cases h
      rfl
    · cases h

/-- Samples of fewer bits than an octet are packed just if all of them fit their bits, and the
scanline has their bits then. -/
theorem packRow_eq_ok_iff {depth : Nat} (hpos : 0 < depth) (hsmall : depth < 8)
    {row line : Octets} :
    packRow depth row = .ok line ↔ (∀ sample ∈ row, sample.toNat < 1 <<< depth) ∧
      line = Bits.toOctets (row.flatMap fun sample => Bits.ofNat depth sample.toNat) := by
  have hpart : ¬ 8 ≤ (depth : Int) := by omega
  have hlarge : (row.any fun sample => (depth : Int) ≤ 0 ∨ 1 <<< depth ≤ sample.toNat) = true ↔
      ¬ ∀ sample ∈ row, sample.toNat < 1 <<< depth := by
    simp [Nat.ne_of_gt hpos]
  rw [packRow, if_neg hpart, Int.toNat_natCast]
  split
  · rename_i hany
    simp [hlarge.1 hany]
  · rename_i hnone
    have hfit := Decidable.not_not.1 (mt hlarge.2 hnone)
    exact ⟨fun h => ⟨hfit, (Except.ok.inj h).symm⟩, fun h => congrArg Except.ok h.2.symm⟩

/-- Only a sample that is too large keeps complete pixel data from being stored. -/
theorem fault_of_scanlines {fault : RowFault} (hwidth : 0 < image.width)
    (hheight : 0 ≤ image.height)
    (hlength : (data.length : Int) = image.width * image.height * image.pixelSize)
    (h : scanlines image data = .error fault) : fault = .largeSample := by
  obtain ⟨all, hrows, hall⟩ := rows_of_complete hwidth hheight hlength
  have hpack {lines : List Octets} (h : lines.mapM (packRow image.bitDepth) = .error fault) :
      fault = .largeSample := by
    obtain ⟨row, -, hrow⟩ := mapM_eq_error h
    exact fault_of_packRow hrow
  simp only [scanlines, hrows, bind, Except.bind] at h
  cases hinterlace : image.interlace with
  | none =>
    rw [hinterlace] at h
    exact hpack h
  | adam7 =>
    simp only [hinterlace] at h
    split at h
    · rename_i found hfound
      cases h
      obtain ⟨pass, -, hpass⟩ := mapM_eq_error hfound
      -- The rows reach as far down as the image, so the pass finds all its rows.
      simp only [Pass.select, List.size_toArray, hall, Nat.le_refl, if_true] at hpass
      exact hpack hpass
    · cases h

end Png

end ScriptedPng
