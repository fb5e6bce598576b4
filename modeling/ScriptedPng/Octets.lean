/-!
# Octets

Sequences of octets and the big-endian numbers in them.

## Main definitions

* `Octets` — a sequence of octets.
* `Octets.big` — a number as a given count of octets, the most significant first.
* `Octets.number` — the number that octets spell, the most significant first.
* `Octets.ofText`, `Octets.toText` — one character for each octet.
-/

namespace ScriptedPng

/-- A sequence of octets. -/
abbrev Octets := List UInt8

namespace Octets

/-- The number `n` modulo `256 ^ k` as `k` octets, the most significant first. -/
def big : Nat → Nat → Octets
  | 0, _ => []
  | k + 1, n => UInt8.ofNat (n / Nat.pow 256 k) :: big k n

/-- The number that the octets spell, the most significant first. -/
def number (octets : Octets) : Nat :=
  octets.foldl (fun n octet => n * 256 + octet.toNat) 0

/-- The octets of a text whose characters are all below U+0100. -/
def ofText (text : String) : Octets :=
  text.toList.map fun c => UInt8.ofNat c.toNat

/-- Each octet as the character of its number. -/
def toText (octets : Octets) : String :=
  String.ofList (octets.map fun octet => Char.ofNat octet.toNat)

/-- Consecutive pieces of `n + 1` octets each, the last one possibly shorter. -/
def pieces (n : Nat) (octets : Octets) : List Octets :=
  match octets with
  | [] => []
  | octet :: rest => (octet :: rest).take (n + 1) :: pieces n (rest.drop n)
termination_by octets.length
decreasing_by simp only [List.length_drop, List.length_cons]; omega

@[simp] theorem length_big (k n : Nat) : (big k n).length = k := by
  induction k with
  | zero => rfl
  | succ k ih => simp [big, ih]

theorem foldl_number (octets : Octets) (start : Nat) :
    octets.foldl (fun n octet => n * 256 + octet.toNat) start
      = start * Nat.pow 256 octets.length + octets.number := by
  induction octets generalizing start with
  | nil => simp [number]
  | cons octet rest ih =>
    simp only [number, List.foldl_cons, List.length_cons]
    rw [ih, ih (0 * 256 + octet.toNat)]
    simp only [Nat.pow_eq, Nat.pow_succ, Nat.add_mul, Nat.mul_assoc, Nat.zero_mul, Nat.zero_add,
      Nat.mul_comm 256]
    omega

/-- Reading back a number gives it modulo the range of its octets. -/
@[simp] theorem number_big (k n : Nat) : (big k n).number = n % Nat.pow 256 k := by
  induction k with
  | zero => simp [big, number, Nat.mod_one]
  | succ k ih =>
    simp only [big, number, List.foldl_cons]
    rw [foldl_number, length_big, ih]
    rw [UInt8.toNat_ofNat', Nat.pow_eq, Nat.pow_eq, Nat.pow_succ 256 k, Nat.mod_mul, Nat.zero_mul,
      Nat.zero_add, Nat.mul_comm, Nat.add_comm]

@[simp] theorem flatten_pieces (n : Nat) (octets : Octets) :
    (pieces n octets).flatten = octets := by
  fun_induction pieces n octets with
  | case1 => rfl
  | case2 octet rest ih => simp [ih]

theorem pieces_zero (octets : Octets) : pieces 0 octets = octets.map ([·]) := by
  fun_induction pieces 0 octets with
  | case1 => rfl
  | case2 octet rest ih => simpa using ih

theorem length_le_of_mem_pieces {n : Nat} {octets piece : Octets} (h : piece ∈ pieces n octets) :
    0 < piece.length ∧ piece.length ≤ n + 1 := by
  fun_induction pieces n octets with
  | case1 => simp at h
  | case2 octet rest ih =>
    rcases List.mem_cons.1 h with rfl | h
    · simp only [List.length_take, List.length_cons]; omega
    · exact ih h

end Octets

end ScriptedPng
