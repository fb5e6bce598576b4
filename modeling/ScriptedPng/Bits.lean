import ScriptedPng.Octets

/-!
# Bit strings

Bit strings of numbers and of octets, the most significant bit first.

## Main definitions

* `Bits.ofNat` — the lowest bits of a number.
* `Bits.toNat` — the number that bits spell.
* `Bits.toOctets` — octets of eight bits each, the last one filled up with zeros.
* `Bits.ofOctets` — the bits of octets.
-/

namespace ScriptedPng.Bits

/-- The lowest `width` bits of `n`, the most significant first. -/
def ofNat : Nat → Nat → List Bool
  | 0, _ => []
  | width + 1, n => n.testBit width :: ofNat width n

/-- The number that the bits spell, the most significant first. -/
def toNat (bits : List Bool) : Nat :=
  bits.foldl (fun n bit => 2 * n + bit.toNat) 0

/-- The octet whose leading bits are given; the others are zero. -/
def octet (bits : List Bool) : UInt8 :=
  UInt8.ofNat (toNat bits <<< (8 - bits.length))

/-- The octets of the bits, the last one filled up with zeros. -/
def toOctets (bits : List Bool) : Octets :=
  match bits with
  | [] => []
  | bit :: rest => octet ((bit :: rest).take 8) :: toOctets (rest.drop 7)
termination_by bits.length
decreasing_by simp only [List.length_drop, List.length_cons]; omega

/-- The bits of the octets. -/
def ofOctets (octets : Octets) : List Bool :=
  octets.flatMap fun octet => ofNat 8 octet.toNat

@[simp] theorem length_ofNat (width n : Nat) : (ofNat width n).length = width := by
  induction width with
  | zero => rfl
  | succ width ih => simp [ofNat, ih]

end ScriptedPng.Bits
