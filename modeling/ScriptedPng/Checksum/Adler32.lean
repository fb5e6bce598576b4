import ScriptedPng.Octets

/-!
# Adler-32

The checksum at the end of a zlib stream: the sum of the octets and the sum of the partial sums,
both modulo 65521.

## Main definitions

* `Checksum.adler32` — the checksum of a sequence of octets.
-/

namespace ScriptedPng.Checksum

/-- The largest prime below `2 ^ 16`. -/
def adlerModulus : Nat := 65521

/-- Takes one octet into both sums. -/
def adlerStep (sums : Nat × Nat) (octet : UInt8) : Nat × Nat :=
  let low := (sums.1 + octet.toNat) % adlerModulus
  (low, (sums.2 + low) % adlerModulus)

/-- The Adler-32 checksum of the octets. -/
def adler32 (octets : Octets) : Nat :=
  let sums := octets.foldl adlerStep (1, 0)
  sums.2 * 65536 + sums.1

end ScriptedPng.Checksum
