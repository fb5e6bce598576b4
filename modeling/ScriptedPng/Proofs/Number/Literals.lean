import ScriptedPng.Proofs.Number.Numeral
import Mathlib.Tactic.Ring

/-!
# Literals

An integer constant is a literal as in C: decimal without a leading zero, octal behind a leading
zero, or hexadecimal behind `0x` or `0X`. What the digits of a literal count for is told by their
places, whatever way they are read.

## Main definitions

* `IntegerConstant.Digits` — characters that are digits of a base, and the number they spell.
* `IntegerConstant.Denotes` — the literals, each one with its number.

## Main statements

* `IntegerConstant.parse_eq_ok_iff` — the constants are the literals.
-/

namespace ScriptedPng.IntegerConstant

variable {base n d : Nat} {c : Char} {chars : List Char}

/-- The digits with letters of either case, in the order of their values. -/
def digitChars : List (List Char) :=
  ["0123456789abcdef".toList, "0123456789ABCDEF".toList]

/-- The character is the digit with the given value. -/
def IsDigit (base : Nat) (c : Char) (d : Nat) : Prop :=
  d < base ∧ ∃ digits ∈ digitChars, digits[d]? = some c

/-- The characters are digits of the base, and spell the number. Each digit counts for as many
powers of the base as there are digits behind it. -/
inductive Digits (base : Nat) : List Char → Nat → Prop
  | nil : Digits base [] 0
  | cons {c : Char} {d n : Nat} {chars : List Char} (hc : IsDigit base c d)
      (h : Digits base chars n) : Digits base (c :: chars) (d * base ^ chars.length + n)

/-- The characters are a literal of the number. Only decimal literals have a longest length. -/
inductive Denotes : List Char → Nat → Prop
  | zero : Denotes ['0'] 0
  | decimal {first : Char} {rest : List Char} {n : Nat} (hfirst : first ≠ '0')
      (hlength : (first :: rest).length ≤ decimalLimit) (h : Digits 10 (first :: rest) n) :
      Denotes (first :: rest) n
  | octal {digits : List Char} {n : Nat} (hne : digits ≠ []) (h : Digits 8 digits n) :
      Denotes ('0' :: digits) n
  | hexadecimal {mark : Char} {digits : List Char} {n : Nat} (hmark : mark = 'x' ∨ mark = 'X')
      (hne : digits ≠ []) (h : Digits 16 digits n) : Denotes ('0' :: mark :: digits) n

/-! ## Digits -/

theorem digit?_eq_some_iff (hd : d < 16) :
    digit? c = some d ↔ ∃ digits ∈ digitChars, digits[d]? = some c := by
  constructor
  · intro h
    have hascii : c.toNat < 123 := by
      simp only [digit?, Char.le_def, UInt32.le_iff_toNat_le] at h
      grind [Char.toNat]
    have hall : ∀ n < 123, ∀ d < 16, digit? (Char.ofNat n) = some d →
        ∃ digits ∈ digitChars, digits[d]? = some (Char.ofNat n) := by decide +kernel
    rw [← Char.ofNat_toNat c] at h ⊢
    exact hall c.toNat hascii d hd h
  · rintro ⟨digits, hmem, hc⟩
    have hall : ∀ digits ∈ digitChars, ∀ d < 16, digits[d]?.bind digit? = some d := by decide
    simpa [hc] using hall digits hmem d hd

/-- The digits of a base up to sixteen. -/
theorem digitIn?_eq_some_iff (hbase : base ≤ 16) :
    digitIn? base c = some d ↔ IsDigit base c d := by
  simp only [digitIn?, Option.filter_eq_some_iff, decide_eq_true_eq, IsDigit]
  constructor
  · rintro ⟨hc, hd⟩
    exact ⟨hd, (digit?_eq_some_iff (by omega)).1 hc⟩
  · rintro ⟨hd, hc⟩
    exact ⟨(digit?_eq_some_iff (by omega)).2 hc, hd⟩

/-- The first digit counts for as many powers of the base as there are digits behind it. -/
theorem ofDigits_cons (base d : Nat) (digits : List Nat) :
    ofDigits base (d :: digits) = d * base ^ digits.length + ofDigits base digits := by
  have hfoldl (digits : List Nat) (start : Nat) :
      digits.foldl (fun n digit => n * base + digit) start =
        start * base ^ digits.length + ofDigits base digits := by
    induction digits generalizing start with
    | nil => simp [ofDigits]
    | cons digit digits ih =>
      rw [ofDigits, List.foldl_cons, List.foldl_cons, ih, ih, List.length_cons]
      ring
  rw [ofDigits, List.foldl_cons, hfoldl, Nat.zero_mul, Nat.zero_add]

/-- Digits that spell a number are read. -/
theorem Digits.exists_mapM (hbase : base ≤ 16) (h : Digits base chars n) :
    ∃ digits, chars.mapM (digitIn? base) = some digits ∧ digits.length = chars.length ∧
      ofDigits base digits = n := by
  induction h with
  | nil => exact ⟨[], rfl, rfl, rfl⟩
  | @cons c d n chars hc _ ih =>
    obtain ⟨digits, hdigits, hlength, rfl⟩ := ih
    have hfirst := (digitIn?_eq_some_iff hbase).2 hc
    refine ⟨d :: digits, by simp [hfirst, hdigits], by simp [hlength], ?_⟩
    rw [ofDigits_cons, hlength]

/-- Digits that are read spell a number. -/
theorem digits_of_mapM (hbase : base ≤ 16) {digits : List Nat}
    (h : chars.mapM (digitIn? base) = some digits) :
    digits.length = chars.length ∧ Digits base chars (ofDigits base digits) := by
  induction chars generalizing digits with
  | nil =>
    cases h
    exact ⟨rfl, .nil⟩
  | cons c chars ih =>
    obtain ⟨d, hd, rest, hrest, rfl⟩ : ∃ d, digitIn? base c = some d ∧
        ∃ rest, chars.mapM (digitIn? base) = some rest ∧ d :: rest = digits := by
      simpa [Option.bind_eq_some_iff] using h
    obtain ⟨hlength, hspelled⟩ := ih hrest
    rw [ofDigits_cons, hlength]
    exact ⟨by simp [hlength], .cons ((digitIn?_eq_some_iff hbase).1 hd) hspelled⟩

/-! ## Literals -/

/-- At least one digit of the base is read, and no more than are converted. -/
theorem parseIn_eq_ok_iff (hbase : base ≤ 16) : parseIn base chars = .ok n ↔
    chars ≠ [] ∧ Digits base chars n ∧ (base = 10 → chars.length ≤ decimalLimit) := by
  constructor
  · intro h
    simp only [parseIn] at h
    split at h
    · cases h
    · cases h
    · rename_i digits hne hdigits
      obtain ⟨hlength, hspelled⟩ := digits_of_mapM hbase hdigits
      split at h
      · cases h
      · cases h
        refine ⟨?_, hspelled, by omega⟩
        rintro rfl
        exact hne (List.length_eq_zero_iff.1 hlength)
  · rintro ⟨hne, hspelled, hlimit⟩
    obtain ⟨digits, hdigits, hlength, rfl⟩ := hspelled.exists_mapM hbase
    obtain ⟨first, rest, rfl⟩ : ∃ first rest, digits = first :: rest := by
      have hpos := List.length_pos_iff.2 hne
      exact List.exists_cons_of_length_pos (by omega)
    have hfew : ¬ (base = 10 ∧ decimalLimit < (first :: rest).length) := by omega
    simp only [parseIn, hdigits, if_neg hfew]

/-- The marks of hexadecimal literals are no digits. -/
theorem IsDigit.not_mark {mark : Char} (h : IsDigit base mark d) :
    ¬ (mark = 'x' ∨ mark = 'X') := by
  obtain ⟨-, digits, hmem, hdigit⟩ := h
  have hall : ∀ digits ∈ digitChars, 'x' ∉ digits ∧ 'X' ∉ digits := by decide
  rintro (rfl | rfl)
  · exact (hall digits hmem).1 (List.mem_of_getElem? hdigit)
  · exact (hall digits hmem).2 (List.mem_of_getElem? hdigit)

theorem parseChars_hexadecimal {mark : Char} (hmark : mark = 'x' ∨ mark = 'X') :
    parseChars ('0' :: mark :: chars) = parseIn 16 chars := by
  rcases hmark with rfl | rfl <;> rfl

theorem parseChars_octal (hc : ¬ (c = 'x' ∨ c = 'X')) :
    parseChars ('0' :: c :: chars) = parseIn 8 (c :: chars) := by
  rw [parseChars]
  · exact fun h => hc (.inl h)
  · exact fun h => hc (.inr h)

theorem parseChars_eq_ok_iff : parseChars chars = .ok n ↔ Denotes chars n := by
  constructor
  · intro h
    by_cases hzero : chars.head? = some '0'
    · obtain ⟨digits, rfl⟩ := List.head?_eq_some_iff.1 hzero
      cases digits with
      | nil =>
        cases h
        exact .zero
      | cons mark digits =>
        by_cases hmark : mark = 'x' ∨ mark = 'X'
        · rw [parseChars_hexadecimal hmark, parseIn_eq_ok_iff (by decide)] at h
          exact .hexadecimal hmark h.1 h.2.1
        · rw [parseChars_octal hmark, parseIn_eq_ok_iff (by decide)] at h
          exact .octal h.1 h.2.1
    · rw [parseChars_of_head? hzero, parseIn_eq_ok_iff (by decide)] at h
      obtain ⟨hne, hdigits, hlength⟩ := h
      obtain ⟨first, rest, rfl⟩ := List.exists_cons_of_ne_nil hne
      exact .decimal (by simpa using hzero) (hlength rfl) hdigits
  · intro h
    cases h with
    | zero => rfl
    | decimal hfirst hlength hdigits =>
      rw [parseChars_of_head? (by simpa using hfirst), parseIn_eq_ok_iff (by decide)]
      exact ⟨List.cons_ne_nil _ _, hdigits, fun _ => hlength⟩
    | octal hne hdigits =>
      cases hdigits with
      | nil => exact absurd rfl hne
      | cons hc hrest =>
        rw [parseChars_octal hc.not_mark, parseIn_eq_ok_iff (by decide)]
        exact ⟨hne, .cons hc hrest, by omega⟩
    | hexadecimal hmark hne hdigits =>
      rw [parseChars_hexadecimal hmark, parseIn_eq_ok_iff (by decide)]
      exact ⟨hne, hdigits, by omega⟩

/-- The constants are the literals. -/
theorem parse_eq_ok_iff {text : String} : parse text = .ok n ↔ Denotes text.toList n :=
  parseChars_eq_ok_iff

end ScriptedPng.IntegerConstant
