import ScriptedPng.Bits

/-!
# Bits of numbers and octets

A number is spelled by its lowest bits if there are enough of them; octets that bits have been
packed into give these bits back, followed by zeros. Octets spell the number that their bits spell.

## Main statements

* `Bits.toNat_ofNat`, `Bits.ofNat_toNat` — numbers and bits are found again.
* `Bits.ofOctets_big` — a number spelled in octets has the bits of the number.
* `Bits.ofOctets_toOctets` — packed bits are found again, with zeros behind them.
* `Bits.toNat_ofOctets` — octets spell the number that their bits spell.
* `Octets.big_number` — octets are found again from the number that they spell.
-/

namespace ScriptedPng.Bits

/-! ## Bits of numbers -/

theorem foldl_ofNat (width n : Nat) :
    (ofNat width n).foldl (fun n bit => 2 * n + bit.toNat) (n >>> width) = n := by
  induction width with
  | zero => rfl
  | succ width ih =>
    have hbit : 2 * (n >>> (width + 1)) + (n.testBit width).toNat = n >>> width := by
      have hmod : (n.testBit width).toNat = n >>> width % 2 := by
        rw [Nat.toNat_testBit, Nat.shiftRight_eq_div_pow]
      rw [Nat.shiftRight_add, Nat.shiftRight_eq_div_pow (n >>> width), hmod]
      omega
    rw [ofNat, List.foldl_cons, hbit, ih]

/-- A number that is small enough is spelled by its lowest bits. -/
theorem toNat_ofNat {width n : Nat} (h : n < 1 <<< width) : toNat (ofNat width n) = n := by
  have hzero : n >>> width = 0 := by
    rw [Nat.shiftRight_eq_div_pow]
    rw [Nat.one_shiftLeft] at h
    exact Nat.div_eq_of_lt h
  have hfold := foldl_ofNat width n
  rwa [hzero] at hfold

theorem shiftRight_foldl (bits : List Bool) (start : Nat) :
    (bits.foldl (fun n bit => 2 * n + bit.toNat) start) >>> bits.length = start := by
  induction bits generalizing start with
  | nil => rfl
  | cons bit bits ih =>
    rw [List.foldl_cons, List.length_cons, Nat.shiftRight_add, ih, Nat.shiftRight_eq_div_pow]
    have := Bool.toNat_lt bit
    omega

/-- The bits of the number that bits spell. -/
theorem ofNat_toNat (bits : List Bool) : ofNat bits.length (toNat bits) = bits := by
  suffices h : ∀ start, ofNat bits.length (bits.foldl (fun n bit => 2 * n + bit.toNat) start) = bits
    from h 0
  induction bits with
  | nil => exact fun _ => rfl
  | cons bit bits ih =>
    intro start
    have hshift := shiftRight_foldl bits (2 * start + bit.toNat)
    have hbit : (bits.foldl (fun n bit => 2 * n + bit.toNat) (2 * start + bit.toNat)).testBit
        bits.length = bit := by
      have htest := Nat.testBit_shiftRight (i := bits.length) (j := 0)
        (bits.foldl (fun n bit => 2 * n + bit.toNat) (2 * start + bit.toNat))
      rw [hshift, Nat.add_zero] at htest
      rw [← htest]
      cases bit <;> simp
    rw [List.length_cons, List.foldl_cons, ofNat, ih, hbit]

theorem foldl_toNat (bits : List Bool) (start : Nat) :
    bits.foldl (fun n bit => 2 * n + bit.toNat) start =
      start * Nat.pow 2 bits.length + toNat bits := by
  induction bits generalizing start with
  | nil => simp [toNat]
  | cons bit bits ih =>
    rw [toNat, List.foldl_cons, List.foldl_cons, ih, ih (2 * 0 + bit.toNat), List.length_cons]
    simp only [Nat.pow_eq, Nat.pow_succ, Nat.add_mul, Nat.mul_assoc, Nat.mul_comm 2]
    omega

/-- Bits in front count as many times as there are numbers of the bits behind. -/
theorem toNat_append (bits others : List Bool) :
    toNat (bits ++ others) = toNat bits * Nat.pow 2 others.length + toNat others := by
  rw [toNat, List.foldl_append, foldl_toNat, ← toNat]

theorem toNat_cons (bit : Bool) (bits : List Bool) :
    toNat (bit :: bits) = bit.toNat * Nat.pow 2 bits.length + toNat bits := by
  have happend := toNat_append [bit] bits
  have hbit : toNat [bit] = bit.toNat := Nat.zero_add _
  rwa [hbit] at happend

theorem toNat_lt (bits : List Bool) : toNat bits < Nat.pow 2 bits.length := by
  induction bits with
  | nil => decide
  | cons bit bits ih =>
    have hlength : Nat.pow 2 (bit :: bits).length = Nat.pow 2 bits.length * 2 := rfl
    rw [toNat_cons, hlength]
    cases bit with
    | false =>
      rw [Bool.toNat_false]
      omega
    | true =>
      rw [Bool.toNat_true]
      omega

/-- The upper bits come first, and then the lower ones. -/
theorem ofNat_add (upper lower n : Nat) :
    ofNat (upper + lower) n = ofNat upper (n >>> lower) ++ ofNat lower n := by
  induction upper with
  | zero => simp [ofNat]
  | succ upper ih =>
    rw [Nat.succ_add, ofNat, ofNat, List.cons_append, ih, Nat.testBit_shiftRight,
      Nat.add_comm lower]

theorem ofNat_congr {width n m : Nat} (h : ∀ i < width, n.testBit i = m.testBit i) :
    ofNat width n = ofNat width m := by
  induction width with
  | zero => rfl
  | succ width ih =>
    rw [ofNat, ofNat, h width (Nat.lt_succ_self _), ih fun i hi => h i (Nat.lt_succ_of_lt hi)]

/-! ## Bits of octets -/

theorem ofOctets_cons (octet : UInt8) (octets : Octets) :
    ofOctets (octet :: octets) = ofNat 8 octet.toNat ++ ofOctets octets := rfl

@[simp] theorem ofOctets_append (octets others : Octets) :
    ofOctets (octets ++ others) = ofOctets octets ++ ofOctets others :=
  List.flatMap_append

theorem length_ofOctets (octets : Octets) : (ofOctets octets).length = 8 * octets.length := by
  induction octets with
  | nil => rfl
  | cons octet octets ih =>
    rw [ofOctets_cons, List.length_append, ih, length_ofNat, List.length_cons]
    omega

theorem toNat_ofNat_eight (octet : UInt8) : toNat (ofNat 8 octet.toNat) = octet.toNat :=
  toNat_ofNat octet.toNat_lt

/-- Octets spell the number that their bits spell. -/
theorem toNat_ofOctets (octets : Octets) : toNat (ofOctets octets) = octets.number := by
  induction octets with
  | nil => rfl
  | cons octet rest ih =>
    have hpow : Nat.pow 2 (8 * rest.length) = Nat.pow 256 rest.length := Nat.pow_mul 2 8 _
    calc toNat (ofOctets (octet :: rest))
        = octet.toNat * Nat.pow 256 rest.length + Octets.number rest := by
          rw [ofOctets_cons, toNat_append, toNat_ofNat_eight, ih, length_ofOctets, hpow]
      _ = Octets.number (octet :: rest) := by
          rw [← Octets.foldl_number, Octets.number, List.foldl_cons, Nat.zero_mul, Nat.zero_add]

theorem ofOctets_inj {octets others : Octets} (h : ofOctets octets = ofOctets others) :
    octets = others := by
  induction octets generalizing others with
  | nil =>
    cases others with
    | nil => rfl
    | cons other others => cases h
  | cons octet octets ih =>
    cases others with
    | nil => cases h
    | cons other others =>
      rw [ofOctets_cons, ofOctets_cons] at h
      obtain ⟨hfirst, hrest⟩ := List.append_inj h (by simp)
      have hnumber : octet.toNat = other.toNat := by
        rw [← toNat_ofNat_eight, hfirst, toNat_ofNat_eight]
      rw [UInt8.toNat_inj.1 hnumber, ih hrest]

/-- A number spelled in octets has the bits of the number. -/
theorem ofOctets_big (k n : Nat) : ofOctets (Octets.big k n) = ofNat (8 * k) n := by
  induction k with
  | zero => rfl
  | succ k ih =>
    have hshift : n / Nat.pow 256 k = n >>> (8 * k) := by
      rw [Nat.shiftRight_eq_div_pow, Nat.pow_mul]
      rfl
    have hfirst : ofNat 8 (UInt8.ofNat (n / Nat.pow 256 k)).toNat = ofNat 8 (n >>> (8 * k)) := by
      apply ofNat_congr
      intro i hi
      rw [UInt8.toNat_ofNat', Nat.testBit_mod_two_pow, hshift]
      simp [hi]
    rw [Octets.big, Nat.mul_succ, Nat.add_comm (8 * k), ofNat_add, ← hfirst, ← ih]
    rfl

/-- An octet starts with the bits that it has been made of. -/
theorem ofNat_octet {bits : List Bool} (h : bits.length ≤ 8) :
    ofNat 8 (octet bits).toNat = bits ++ List.replicate (8 - bits.length) false := by
  have hzeros (k n : Nat) : ofNat k (n <<< k) = List.replicate k false := by
    have hzero : ofNat k (n <<< k) = ofNat k 0 := ofNat_congr fun i hi => by
      simp [Nat.testBit_shiftLeft, Nat.not_le.2 hi]
    rw [hzero]
    clear hzero
    induction k with
    | zero => rfl
    | succ k ih => rw [ofNat, ih, Nat.zero_testBit, List.replicate_succ]
  have hwidth : bits.length + (8 - bits.length) = 8 := by omega
  have hmod : ofNat 8 (octet bits).toNat = ofNat 8 (toNat bits <<< (8 - bits.length)) := by
    apply ofNat_congr
    intro i hi
    rw [octet, UInt8.toNat_ofNat', Nat.testBit_mod_two_pow]
    simp [hi]
  calc ofNat 8 (octet bits).toNat
      = ofNat (bits.length + (8 - bits.length)) (toNat bits <<< (8 - bits.length)) := by
        rw [hwidth, hmod]
    _ = bits ++ List.replicate (8 - bits.length) false := by
        rw [ofNat_add, Nat.shiftLeft_shiftRight, ofNat_toNat, hzeros]

@[simp] theorem length_toOctets (bits : List Bool) :
    (toOctets bits).length = (bits.length + 7) / 8 := by
  fun_induction toOctets bits with
  | case1 => rfl
  | case2 bit rest ih =>
    simp only [List.length_cons, ih, List.length_drop]
    omega

/-- Packed bits are found again, with zeros behind them that fill up the last octet. -/
theorem ofOctets_toOctets (bits : List Bool) :
    ofOctets (toOctets bits) =
      bits ++ List.replicate (8 * (toOctets bits).length - bits.length) false := by
  fun_induction toOctets bits with
  | case1 => rfl
  | case2 bit rest ih =>
    have hshort : ((bit :: rest).take 8).length ≤ 8 := by
      rw [List.length_take]
      omega
    have hfirst := ofNat_octet hshort
    have hsplit : (bit :: rest).take 8 ++ rest.drop 7 = bit :: rest :=
      List.take_append_drop 8 (bit :: rest)
    by_cases hlong : 7 ≤ rest.length
    · have hfull : ((bit :: rest).take 8).length = 8 := by simp; omega
      have hzeros : 8 * (toOctets (rest.drop 7)).length - (rest.drop 7).length =
          8 * ((toOctets (rest.drop 7)).length + 1) - (rest.length + 1) := by
        rw [List.length_drop]
        omega
      rw [ofOctets_cons, hfirst, ih, hfull, Nat.sub_self, List.replicate_zero, List.append_nil,
        ← List.append_assoc, hsplit, hzeros]
      rfl
    · have hnone : rest.drop 7 = [] := List.drop_eq_nil_of_le (by omega)
      rw [hnone, List.append_nil] at hsplit
      rw [ofOctets_cons, hfirst, hsplit, hnone, toOctets, ofOctets, List.flatMap_nil,
        List.append_nil]
      rfl

end ScriptedPng.Bits

namespace ScriptedPng.Octets

/-! ## Numbers of octets -/

theorem number_lt (octets : Octets) : octets.number < Nat.pow 256 octets.length := by
  have hpow : Nat.pow 2 (8 * octets.length) = Nat.pow 256 octets.length := Nat.pow_mul 2 8 _
  have hlt := Bits.toNat_lt (Bits.ofOctets octets)
  rwa [Bits.toNat_ofOctets, Bits.length_ofOctets, hpow] at hlt

/-- Octets are found again from the number that they spell. -/
theorem big_number (octets : Octets) : big octets.length octets.number = octets := by
  apply Bits.ofOctets_inj
  rw [Bits.ofOctets_big, ← Bits.toNat_ofOctets, ← Bits.length_ofOctets, Bits.ofNat_toNat]

end ScriptedPng.Octets
