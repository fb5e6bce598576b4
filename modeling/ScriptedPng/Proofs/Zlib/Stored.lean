import ScriptedPng.Zlib.Stored

/-!
# Reading back zlib streams

A zlib stream gives back the octets that have been put into it, however many stored blocks they
take.

## Main statements

* `Zlib.readBlocks_storedBlocks` — the blocks are read up to the one marked as last.
* `Zlib.decompress?_compress` — the octets are those that have been compressed.
-/

namespace ScriptedPng.Zlib

/-- The front of a block gives its length. -/
theorem readBlocks_storedBlock {piece : Octets} (h : piece.length ≤ blockLimit) (final : Bool)
    (rest : Octets) : readBlocks (storedBlock final piece ++ rest) =
      if final then some (piece, rest)
      else (readBlocks rest).map fun found => (piece ++ found.1, found.2) := by
  have hfront (n : Nat) : ∃ high low, Octets.big 2 n = [high, low] := ⟨_, _, rfl⟩
  obtain ⟨high, low, hlength⟩ := hfront piece.length
  obtain ⟨highComplement, lowComplement, hcomplement⟩ := hfront (blockLimit - piece.length)
  have hnumber : Octets.number [high, low] = piece.length := by
    rw [← hlength, Octets.number_big]
    exact Nat.mod_eq_of_lt (Nat.lt_of_le_of_lt h (by decide))
  have hother : Octets.number [highComplement, lowComplement] = blockLimit - piece.length := by
    rw [← hcomplement, Octets.number_big]
    exact Nat.mod_eq_of_lt (Nat.lt_of_le_of_lt (Nat.sub_le _ _) (by decide))
  have hsum : ¬ (piece.length + (blockLimit - piece.length) ≠ blockLimit ∨
      (piece ++ rest).length < piece.length) := by
    rw [List.length_append]
    omega
  rw [storedBlock, hlength, hcomplement]
  simp only [List.reverse_cons, List.reverse_nil, List.nil_append, List.cons_append]
  rw [readBlocks]
  simp only [hnumber, hother, if_neg hsum, List.take_left', List.drop_left']
  cases final <;> simp

/-- Blocks are read up to the one marked as last. -/
theorem readBlocks_storedBlocks {pieces : List Octets} (h : ∀ piece ∈ pieces,
    piece.length ≤ blockLimit) (rest : Octets) :
    readBlocks (storedBlocks pieces ++ rest) = some (pieces.flatten, rest) := by
  fun_induction storedBlocks pieces with
  | case1 =>
    have hempty : ([] : Octets).length ≤ blockLimit := Nat.zero_le _
    simp [readBlocks_storedBlock hempty]
  | case2 piece => simp [readBlocks_storedBlock (h piece List.mem_cons_self)]
  | case3 piece others _ ih =>
    rw [List.append_assoc, readBlocks_storedBlock (h piece List.mem_cons_self),
      ih fun piece hmem => h piece (List.mem_cons_of_mem _ hmem)]
    simp

/-- The octets that have been compressed are found again. -/
theorem decompress?_compress (octets : Octets) : decompress? (compress octets) = some octets := by
  have hpieces : ∀ piece ∈ octets.pieces (blockLimit - 1), piece.length ≤ blockLimit :=
    fun piece hmem => (Octets.length_le_of_mem_pieces hmem).2
  have hblocks := readBlocks_storedBlocks hpieces (Octets.big 4 (Checksum.adler32 octets))
  rw [Octets.flatten_pieces] at hblocks
  have hstart : streamHeader.isPrefixOf (compress octets) = true := by
    rw [compress, List.append_assoc]
    exact List.isPrefixOf_iff_prefix.2 (List.prefix_append _ _)
  have hdrop : (compress octets).drop 2 =
      storedBlocks (octets.pieces (blockLimit - 1)) ++ Octets.big 4 (Checksum.adler32 octets) := rfl
  rw [decompress?, if_pos hstart, hdrop, hblocks]
  simp

end ScriptedPng.Zlib
