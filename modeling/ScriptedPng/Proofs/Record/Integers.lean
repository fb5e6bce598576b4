import Mathlib.Algebra.Group.Int.Defs
import ScriptedPng.Proofs.Bits
import ScriptedPng.Record.Update

/-!
# Integers in fields

The integers of a format and the octets of its width correspond one to one: an integer is stored as
the only octets that stand for it, and octets of the width stand for an integer of the format. So
nothing is lost where an integer can be stored, and it cannot be only if it is out of range.

## Main definitions

* `Bits.toInt` — the integer that bits stand for, with a sign or without.
* `IntegerFormat.InRange` — an integer is within the bounds of a format.
* `Field.Holds` — a field holds an integer that no enumeration restricts.

## Main statements

* `IntegerFormat.fits_iff_inRange` — the integers of a format are those within its bounds.
* `IntegerFormat.encode?_eq_some_iff` — an integer is stored as the octets that stand for it.
* `IntegerFormat.decode_eq_toInt` — octets stand for the integer that their bits stand for.
* `Field.raw_of_letter` — the octets of fields of the formats that have letters.
* `Field.integer_exact` — which integers fields can store, and what is stored.
-/

namespace ScriptedPng

/-- The integer that the bits stand for, the most significant first. With a sign they are in two's
complement: the first bit counts against the others. -/
def Bits.toInt (signed : Bool) : List Bool → Int
  | [] => 0
  | bit :: rest =>
    let first : Int := bit.toNat * 2 ^ rest.length
    if signed then toNat rest - first else toNat rest + first

/-- Octets in one order are those in the other one the other way round. -/
theorem ByteOrder.arrange_reverse {order other : ByteOrder} (h : other ≠ order)
    (octets : Octets) : other.arrange octets.reverse = order.arrange octets := by
  cases order <;> cases other <;> simp_all [arrange]

namespace IntegerFormat

variable {format : IntegerFormat} {order : ByteOrder} {n m : Int} {octets : Octets}

/-! ## Ranges -/

/-- The integer is within the bounds that the number of bits sets. With a sign half of the integers
are negative. -/
def InRange (format : IntegerFormat) (n : Int) : Prop :=
  let bits := 8 * format.width
  if format.signed then -(2 ^ (bits - 1)) ≤ n ∧ n ≤ 2 ^ (bits - 1) - 1
  else 0 ≤ n ∧ n ≤ 2 ^ bits - 1

instance (format : IntegerFormat) (n : Int) : Decidable (format.InRange n) :=
  inferInstanceAs (Decidable (if format.signed then _ ∧ _ else _ ∧ _))

theorem count_eq (format : IntegerFormat) : format.count = 2 ^ (8 * format.width) := by
  rw [Int.pow_mul]
  exact Int.natCast_pow 256 format.width

/-- The formats that have letters are those of one, two, four and eight octets. -/
theorem width_of_ofLetter? {letter : Char} (h : ofLetter? letter = some format) :
    format.width ∈ [1, 2, 4, 8] := by
  unfold ofLetter? at h
  split at h <;> cases h <;> decide

theorem count_pos (format : IntegerFormat) : 0 < format.count := by
  rw [count_eq]
  exact Int.pow_pos (by decide)

theorem count_eq_two_mul (hwidth : 0 < format.width) :
    format.count = 2 * 2 ^ (8 * format.width - 1) := by
  have hbits : 8 * format.width = 8 * format.width - 1 + 1 := by omega
  rw [count_eq, hbits, Int.pow_succ, Int.mul_comm, Nat.add_sub_cancel]

/-- The integers of a format are those within its bounds. -/
theorem fits_iff_inRange (hwidth : 0 < format.width) : format.Fits n ↔ format.InRange n := by
  have hcount := count_eq format
  have hhalf := count_eq_two_mul hwidth
  simp only [Fits, least, InRange]
  split <;> omega

/-- Integers of a format that leave the same remainder are the same. -/
theorem Fits.eq_of_emod (h : format.Fits n) (hm : format.Fits m)
    (hmod : n % format.count = m % format.count) : n = m := by
  obtain ⟨hleast, hlt⟩ := h
  obtain ⟨hleast', hlt'⟩ := hm
  have hdvd : format.count ∣ n - m :=
    Int.dvd_of_emod_eq_zero (Int.emod_eq_emod_iff_emod_sub_eq_zero.1 hmod)
  have hsmall : (n - m).natAbs < format.count.natAbs := by omega
  exact Int.eq_of_sub_eq_zero (Int.eq_zero_of_dvd_of_natAbs_lt_natAbs hdvd hsmall)

/-! ## Integers and their octets -/

theorem number_lt_count (order : ByteOrder) (h : octets.length = format.width) :
    ((order.arrange octets).number : Int) < format.count := by
  have hlt := Octets.number_lt (order.arrange octets)
  rw [ByteOrder.length_arrange, h] at hlt
  exact Int.ofNat_lt.2 hlt

/-- Octets stand for an integer of the format. -/
theorem fits_decode (h : octets.length = format.width) :
    format.Fits (format.decode order octets) := by
  have hlt := number_lt_count order h
  simp only [Fits, least, decode]
  split <;> split <;> omega

/-- The octets spell the remainder of the integer that they stand for. -/
theorem decode_emod (h : octets.length = format.width) :
    format.decode order octets % format.count = (order.arrange octets).number := by
  have hmod : ((order.arrange octets).number : Int) % format.count =
      (order.arrange octets).number :=
    Int.emod_eq_of_lt (Int.natCast_nonneg _) (number_lt_count order h)
  simp only [decode]
  split
  · exact hmod
  · rw [Int.sub_emod_right, hmod]

/-- Octets are what the integer that they stand for is stored as. -/
theorem encode?_decode (h : octets.length = format.width) :
    format.encode? order (format.decode order octets) = some octets := by
  rw [encode?, if_pos (fits_decode h), decode_emod h, Int.toNat_natCast, ← h,
    ← ByteOrder.length_arrange order, Octets.big_number, ByteOrder.arrange_arrange]

/-- The octets of an integer stand for it. -/
theorem decode_encode? (h : format.encode? order n = some octets) :
    format.decode order octets = n := by
  have hlength := length_encode? h
  have hremainder := Int.emod_nonneg n (Int.ne_of_gt format.count_pos)
  have hlt := Int.emod_lt_of_pos n format.count_pos
  have hcount : format.count.toNat = Nat.pow 256 format.width := Int.toNat_natCast _
  obtain ⟨hfits, rfl⟩ : format.Fits n ∧
      order.arrange (Octets.big format.width (n % format.count).toNat) = octets := by
    simpa [encode?] using h
  refine (fits_decode hlength).eq_of_emod hfits ?_
  rw [decode_emod hlength, ByteOrder.arrange_arrange, Octets.number_big, Nat.mod_eq_of_lt]
  · exact Int.toNat_of_nonneg hremainder
  · omega

/-- An integer is stored as the octets of the width that stand for it. -/
theorem encode?_eq_some_iff : format.encode? order n = some octets ↔
    octets.length = format.width ∧ format.decode order octets = n := by
  constructor
  · exact fun h => ⟨length_encode? h, decode_encode? h⟩
  · rintro ⟨hlength, rfl⟩
    exact encode?_decode hlength

/-- Octets stand for the integer that their bits stand for. -/
theorem decode_eq_toInt (h : octets.length = format.width) : format.decode order octets =
    Bits.toInt format.signed (Bits.ofOctets (order.arrange octets)) := by
  have hbits : (Bits.ofOctets (order.arrange octets)).length = 8 * format.width := by
    rw [Bits.length_ofOctets, ByteOrder.length_arrange, h]
  have hcount : format.count = (Nat.pow 2 (8 * format.width) : Nat) :=
    (count_eq format).trans (Int.natCast_pow 2 _).symm
  rw [decode, least, hcount, ← hbits, ← Bits.toNat_ofOctets]
  cases Bits.ofOctets (order.arrange octets) with
  | nil => cases format.signed <;> rfl
  | cons bit rest =>
    -- What is behind the first bit is less than the half of the count that this bit is worth.
    have hlt := Bits.toNat_lt rest
    have hhalf : (Nat.pow 2 rest.length : Nat) = (2 : Int) ^ rest.length := Int.natCast_pow 2 _
    have hlength : Nat.pow 2 (bit :: rest).length = Nat.pow 2 rest.length * 2 := rfl
    rw [Bits.toInt, Bits.toNat_cons, hlength, ← hhalf]
    cases bit <;> cases format.signed <;>
      simp only [Bool.toNat_true, Bool.toNat_false, if_true, if_false, Bool.false_eq_true] <;>
      split <;> omega

end IntegerFormat

namespace Record.Field

variable {format : IntegerFormat} {order : ByteOrder} {n : Int} {field : Field} {octets : Octets}

/-! ## Fields -/

/-- The field holds the integer in the format and the byte order, and no enumeration restricts
it. -/
def Holds (field : Field) (format : IntegerFormat) (order : ByteOrder) (n : Int) : Prop :=
  ∃ label role, field = number label role format order none (.integer n)

theorem exists_holds (format : IntegerFormat) (order : ByteOrder) (n : Int) :
    ∃ field, ofNumber format order none (.integer n) = .ok field ∧ field.Holds format order n :=
  ⟨_, rfl, _, _, rfl⟩

namespace Holds

/-- A field that holds an integer takes any other one. -/
theorem assign (h : field.Holds format order n) (m : Int) :
    ∃ after, field.assign (.integer m) = .ok after ∧ after.Holds format order m := by
  obtain ⟨label, role, rfl⟩ := h
  exact ⟨_, rfl, label, role, rfl⟩

/-- The byte order can be changed, and the field holds the same integer then. -/
theorem setOrder (h : field.Holds format order n) (other : ByteOrder) :
    ∃ after, field.set Attribute.order.word (.member (orderMember other)) = .ok after ∧
      after.Holds format other n := by
  obtain ⟨label, role, rfl⟩ := h
  cases other <;> exact ⟨_, rfl, _, role, rfl⟩

theorem raw_eq (h : field.Holds format order n) : field.raw =
    match format.encode? order n with
    | some octets => .ok octets
    | none => .error (.unencodable ⟨format, order, some n⟩) := by
  obtain ⟨label, role, rfl⟩ := h
  rfl

/-- The octets of the field are those of the width that stand for the integer. -/
theorem raw_eq_ok_iff (h : field.Holds format order n) : field.raw = .ok octets ↔
    octets.length = format.width ∧ format.decode order octets = n := by
  rw [h.raw_eq, ← IntegerFormat.encode?_eq_some_iff]
  cases format.encode? order n <;> simp

theorem exists_raw_iff (h : field.Holds format order n) :
    (∃ octets, field.raw = .ok octets) ↔ format.Fits n := by
  constructor
  · rintro ⟨octets, hraw⟩
    obtain ⟨hlength, rfl⟩ := h.raw_eq_ok_iff.1 hraw
    exact IntegerFormat.fits_decode hlength
  · intro hfits
    exact ⟨_, by rw [h.raw_eq, IntegerFormat.encode?, if_pos hfits]⟩

theorem raw_of_not_fits (h : field.Holds format order n) (hfits : ¬ format.Fits n) :
    field.raw = .error (.unencodable ⟨format, order, some n⟩) := by
  rw [h.raw_eq, IntegerFormat.encode?, if_neg hfits]

/-- In the other byte order the octets are the same ones the other way round. -/
theorem raw_reverse {turned : Field} {other : ByteOrder} (h : field.Holds format order n)
    (hturned : turned.Holds format other n) (hne : other ≠ order) (hraw : field.raw = .ok octets) :
    turned.raw = .ok octets.reverse := by
  obtain ⟨hlength, hdecode⟩ := h.raw_eq_ok_iff.1 hraw
  rw [hturned.raw_eq_ok_iff, List.length_reverse, IntegerFormat.decode,
    ByteOrder.arrange_reverse hne]
  exact ⟨hlength, hdecode⟩

end Holds

/-- A field of a format that has a letter has octets exactly if its integer is in the range of the
format, and they are then those of the width that stand for the integer. -/
theorem raw_of_letter {letter : Char} (hletter : IntegerFormat.ofLetter? letter = some format)
    (h : field.Holds format order n) :
    ((∃ octets, field.raw = .ok octets) ↔ format.InRange n) ∧
    (¬ format.InRange n → field.raw = .error (.unencodable ⟨format, order, some n⟩)) ∧
    ∀ octets, field.raw = .ok octets ↔
      octets.length = format.width ∧ format.decode order octets = n := by
  have hwidth : 0 < format.width := by
    have := IntegerFormat.width_of_ofLetter? hletter
    simp only [List.mem_cons, List.not_mem_nil, or_false] at this
    omega
  simp only [← IntegerFormat.fits_iff_inRange hwidth]
  exact ⟨h.exists_raw_iff, h.raw_of_not_fits, fun octets => h.raw_eq_ok_iff⟩

/-- Integers are stored without loss, whatever the width of the format and the byte order. A field
can be made with any integer and set to any other one, but it has octets exactly if the integer is
in the range of the format, and otherwise the fault is that it cannot be encoded. There are as many
octets as the width says. Read in the byte order of the field, with a sign or without as the format
says, they are the integer again, and their bits stand for it in two's complement. No other integer
has these octets, and in the other byte order they are the other way round. -/
theorem integer_exact (format : IntegerFormat) (hwidth : 0 < format.width) :
    (∀ (order : ByteOrder) (n : Int), ∃ field,
      ofNumber format order none (.integer n) = .ok field ∧ field.Holds format order n) ∧
    ∀ (field : Field) (order : ByteOrder) (n : Int), field.Holds format order n →
      (∀ m, ∃ after, field.assign (.integer m) = .ok after ∧ after.Holds format order m) ∧
      (∀ other, ∃ after,
        field.set Attribute.order.word (.member (orderMember other)) = .ok after ∧
        after.Holds format other n) ∧
      ((∃ octets, field.raw = .ok octets) ↔ format.InRange n) ∧
      (¬ format.InRange n → field.raw = .error (.unencodable ⟨format, order, some n⟩)) ∧
      ∀ octets, field.raw = .ok octets →
        octets.length = format.width ∧
        format.decode order octets = n ∧
        Bits.toInt format.signed (Bits.ofOctets (order.arrange octets)) = n ∧
        (∀ (another : Field) (m : Int), another.Holds format order m →
          another.raw = .ok octets → m = n) ∧
        ∀ (turned : Field) (other : ByteOrder), other ≠ order → turned.Holds format other n →
          turned.raw = .ok octets.reverse := by
  refine ⟨fun order n => exists_holds format order n, fun field order n h => ?_⟩
  simp only [← IntegerFormat.fits_iff_inRange hwidth]
  refine ⟨h.assign, h.setOrder, h.exists_raw_iff, h.raw_of_not_fits, fun octets hraw => ?_⟩
  obtain ⟨hlength, hdecode⟩ := h.raw_eq_ok_iff.1 hraw
  refine ⟨hlength, hdecode, ?_, fun another m hanother hsame => ?_,
    fun turned other hne hturned => h.raw_reverse hturned hne hraw⟩
  · rw [← IntegerFormat.decode_eq_toInt hlength, hdecode]
  · rw [← (hanother.raw_eq_ok_iff.1 hsame).2, hdecode]

/-- A field of two octets with a sign. -/
def shortField (order : ByteOrder) (n : Int) : Field :=
  number .fresh .stored ⟨2, true⟩ order none (.integer n)

/-- A negative integer in both byte orders, and the first one that is too large. -/
theorem integer_exact_shortField :
    0 < (⟨2, true⟩ : IntegerFormat).width ∧
    (∀ order n, (shortField order n).Holds ⟨2, true⟩ order n) ∧
    (shortField .little (-2)).raw = .ok [0xfe, 0xff] ∧
    (⟨2, true⟩ : IntegerFormat).decode .little [0xfe, 0xff] = -2 ∧
    ByteOrder.big ≠ .little ∧
    (shortField .big (-2)).raw = .ok [0xff, 0xfe] ∧
    ¬ (⟨2, true⟩ : IntegerFormat).InRange 32768 ∧
    (shortField .little 32768).raw =
      .error (.unencodable ⟨⟨2, true⟩, .little, some 32768⟩) := by
  have hholds (order : ByteOrder) (n : Int) : (shortField order n).Holds ⟨2, true⟩ order n :=
    ⟨_, _, rfl⟩
  have hraw : (shortField .little (-2)).raw = .ok [0xfe, 0xff] := rfl
  have hlarge : ¬ (⟨2, true⟩ : IntegerFormat).InRange 32768 := by decide
  obtain ⟨-, hexact⟩ := integer_exact ⟨2, true⟩ (by decide)
  obtain ⟨-, -, -, -, hoctets⟩ := hexact _ _ _ (hholds .little (-2))
  obtain ⟨-, hdecode, -, -, hturned⟩ := hoctets _ hraw
  obtain ⟨-, -, -, hfault, -⟩ := hexact _ _ _ (hholds .little 32768)
  exact ⟨by decide, hholds, hraw, hdecode, by decide,
    hturned _ _ (by decide) (hholds .big (-2)), hlarge, hfault hlarge⟩

end Record.Field

end ScriptedPng
