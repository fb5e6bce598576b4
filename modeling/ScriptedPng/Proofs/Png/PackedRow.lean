import Mathlib.Algebra.GroupWithZero.Nat
import ScriptedPng.Proofs.Png.Scanlines

/-!
# Packed rows

Samples of one to seven bits are put together without regard to where an octet ends, so a sample may
lie in two octets. Nothing is lost: the samples can be cut out of the scanline again, and what fills
up its last octet is zero.

## Main statements

* `Png.readSamples_packed` — the samples are found in the scanline.
* `Png.packRow_exact` — when a row is packed, and what it is packed to.
-/

namespace ScriptedPng.Png

variable {depth : Nat} {row line : Octets}

/-- The bits of a row, all samples one after the other. -/
theorem flatMap_toNat (depth : Nat) (row : Octets) :
    (row.flatMap fun sample => Bits.ofNat depth sample.toNat) =
      (row.map UInt8.toNat).flatMap (Bits.ofNat depth) := by
  rw [List.flatMap_map]

theorem length_packed (h : packRow depth row = .ok line) (hpos : 0 < depth) (hsmall : depth < 8) :
    line.length = (row.length * depth + 7) / 8 := by
  obtain ⟨-, rfl⟩ := (packRow_eq_ok_iff hpos hsmall).1 h
  rw [Bits.length_toOctets, flatMap_toNat, length_flatMap_ofNat, List.length_map]

/-- A scanline starts with the bits of its samples, and has zeros behind them. -/
theorem ofOctets_packed (h : packRow depth row = .ok line) (hpos : 0 < depth)
    (hsmall : depth < 8) :
    Bits.ofOctets line = (row.map UInt8.toNat).flatMap (Bits.ofNat depth) ++
      List.replicate (8 * line.length - row.length * depth) false := by
  obtain ⟨-, rfl⟩ := (packRow_eq_ok_iff hpos hsmall).1 h
  rw [Bits.ofOctets_toOctets, flatMap_toNat, length_flatMap_ofNat, List.length_map]

/-- The samples are found in the scanline, cut out one after the other. -/
theorem readSamples_packed (h : packRow depth row = .ok line) (hpos : 0 < depth)
    (hsmall : depth < 8) :
    readSamples depth row.length (Bits.ofOctets line) = row.map UInt8.toNat := by
  obtain ⟨hfit, -⟩ := (packRow_eq_ok_iff hpos hsmall).1 h
  have hsamples : ∀ sample ∈ row.map UInt8.toNat, sample < 1 <<< depth := by
    simpa using hfit
  rw [ofOctets_packed h hpos hsmall, ← List.length_map UInt8.toNat,
    readSamples_flatMap hsamples]

/-- Rows of one length that are packed to the same scanline are the same. -/
theorem eq_of_packed {other : Octets} (h : packRow depth row = .ok line)
    (hother : packRow depth other = .ok line) (hlength : other.length = row.length)
    (hpos : 0 < depth) (hsmall : depth < 8) : other = row := by
  have hsame : other.map UInt8.toNat = row.map UInt8.toNat := by
    rw [← readSamples_packed h hpos hsmall, ← readSamples_packed hother hpos hsmall, hlength]
  exact (List.map_inj_right fun _ _ => UInt8.toNat.inj).1 hsame

/-- A row with samples of one to seven bits is packed if and only if all of them fit, and only a
sample that does not is a reason why not. The scanline takes as few octets as there can be, its
leading bits are cut into the samples again, and all others are zero; no other row of the length has
this scanline. Rows with samples of whole octets are scanlines as they are. -/
theorem packRow_exact (depth : Nat) (row : Octets) :
    (1 ≤ depth → depth ≤ 7 →
      ((∃ line, packRow depth row = .ok line) ↔ ∀ sample ∈ row, sample.toNat < 2 ^ depth) ∧
      (∀ fault, packRow depth row = .error fault → fault = .largeSample) ∧
      ∀ line, packRow depth row = .ok line →
        line.length = (row.length * depth + 7) / 8 ∧
        readSamples depth row.length (Bits.ofOctets line) = row.map UInt8.toNat ∧
        (∀ bit ∈ (Bits.ofOctets line).drop (row.length * depth), bit = false) ∧
        ∀ other, other.length = row.length → packRow depth other = .ok line → other = row) ∧
    (8 ≤ depth → packRow depth row = .ok row) := by
  refine ⟨fun hpos hle => ?_, fun hwhole => ?_⟩
  · have hsmall : depth < 8 := by omega
    refine ⟨?_, fun fault h => fault_of_packRow h, fun line h => ?_⟩
    · simp only [packRow_eq_ok_iff hpos hsmall, ← Nat.one_shiftLeft]
      grind
    · refine ⟨length_packed h hpos hsmall, readSamples_packed h hpos hsmall, ?_, ?_⟩
      · have hlength : ((row.map UInt8.toNat).flatMap (Bits.ofNat depth)).length =
            row.length * depth := by
          rw [length_flatMap_ofNat, List.length_map]
        rw [ofOctets_packed h hpos hsmall, List.drop_left' hlength]
        exact fun bit hbit => List.eq_of_mem_replicate hbit
      · intro other hlength hother
        exact eq_of_packed h hother hlength hpos hsmall
  · rw [packRow, if_pos (by omega)]

/-- Three samples of three bits; the last one lies in both octets. -/
theorem packRow_exact_three : (1 ≤ 3 ∧ 3 ≤ 7) ∧ packRow (3 : Nat) [5, 2, 7] = .ok [0xab, 0x80] ∧
    readSamples 3 3 (Bits.ofOctets [0xab, 0x80]) = [5, 2, 7] := by
  have hpacked : packRow (3 : Nat) [5, 2, 7] = .ok [0xab, 0x80] :=
    (packRow_eq_ok_iff (by decide) (by decide)).2 ⟨by simp, by decide +kernel⟩
  obtain ⟨-, -, hexact⟩ := (packRow_exact 3 [5, 2, 7]).1 (by decide) (by decide)
  obtain ⟨-, hread, -⟩ := hexact _ hpacked
  exact ⟨by decide, hpacked, hread⟩

end ScriptedPng.Png
