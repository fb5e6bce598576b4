import ScriptedPng.Block.Constant
import ScriptedPng.Proofs.Spelling

/-!
# Decimal numerals

The decimal numeral of a number is a word, and an integer constant with that number as its value.

## Main statements

* `IntegerConstant.parse_repr` — a decimal numeral has the value of its number.
* `Lexer.isText_repr` — a decimal numeral is a word.
-/

namespace ScriptedPng

namespace IntegerConstant

theorem digitIn?_digitChar {base d : Nat} (hbase : base ≤ 16) (h : d < base) :
    digitIn? base d.digitChar = some d := by
  have hall : ∀ d < 16, digit? (Nat.digitChar d) = some d := by decide
  rw [digitIn?, hall d (by omega), Option.filter_some, if_pos (decide_eq_true h)]

/-- The digits of a number in a base spell it. -/
theorem mapM_toDigits {base : Nat} (hone : 1 < base) (hbase : base ≤ 16) (n : Nat) :
    ∃ digits, (Nat.toDigits base n).mapM (digitIn? base) = some digits ∧
      digits.length = (Nat.toDigits base n).length ∧ ofDigits base digits = n := by
  induction n using Nat.strongRecOn with
  | ind n ih =>
    rw [Nat.toDigits_eq_if hone]
    split
    next hlt => exact ⟨[n], by simp [digitIn?_digitChar hbase hlt], rfl, by simp [ofDigits]⟩
    next hle =>
      obtain ⟨digits, hdigits, hlength, hvalue⟩ := ih (n / base)
        (Nat.div_lt_self (by omega) hone)
      have hlast := digitIn?_digitChar hbase (Nat.mod_lt n (by omega))
      refine ⟨digits ++ [n % base], ?_, by simp [hlength], ?_⟩
      · simp [List.mapM_append, hdigits, hlast]
      · simp only [ofDigits, List.foldl_append, List.foldl_cons, List.foldl_nil] at hvalue ⊢
        rw [hvalue, Nat.div_add_mod']

/-- The numeral of a number does not start with a zero, unless it is the zero. -/
theorem head?_toDigits {n : Nat} (h : 0 < n) : (Nat.toDigits 10 n).head? ≠ some '0' := by
  induction n using Nat.strongRecOn with
  | ind n ih =>
    rw [Nat.toDigits_eq_if (by decide)]
    split
    next hlt =>
      simp only [List.head?_cons, ne_eq, Option.some.injEq, Nat.digitChar_eq_zero]
      omega
    next hle =>
      have hfirst := ih (n / 10) (by omega) (by omega)
      rwa [List.head?_append, Option.or_of_isSome (by simp [Nat.toDigits_ne_nil])]

/-- What does not start with a zero is a decimal constant. -/
theorem parseChars_of_head? {chars : List Char} (h : chars.head? ≠ some '0') :
    parseChars chars = parseIn 10 chars := by
  fun_cases parseChars chars <;> simp at h ⊢

/-- A decimal numeral has the value of its number. -/
theorem parse_repr {n : Nat} (h : n.repr.length ≤ decimalLimit) : parse n.repr = .ok n := by
  have hparse : parseIn 10 (Nat.toDigits 10 n) = .ok n := by
    obtain ⟨digits, hdigits, hlength, hvalue⟩ :=
      mapM_toDigits (show 1 < 10 by decide) (by decide) n
    have hpos := Nat.length_toDigits_pos (b := 10) (n := n)
    have hne : digits ≠ [] := List.ne_nil_of_length_pos (by omega)
    have hlimit : ¬ decimalLimit < digits.length := by
      rw [hlength, ← Nat.toList_repr]
      exact Nat.not_lt.2 h
    obtain ⟨first, rest, rfl⟩ := List.exists_cons_of_ne_nil hne
    simp only [parseIn, hdigits, hlimit, hvalue, and_false, if_false]
  rw [parse, Nat.toList_repr, ← hparse]
  rcases Nat.eq_zero_or_pos n with rfl | hpos
  · rfl
  · exact parseChars_of_head? (head?_toDigits hpos)

end IntegerConstant

namespace Lexer

/-- Digits may stand anywhere in a word. -/
theorem isWordChar_of_isDigit {c : Char} (h : c.isDigit = true) :
    Text.isBlank c = false ∧ Text.isPunctuation c = false ∧ Token.isWordChar c = true := by
  have hall : ∀ n < 58, 48 ≤ n → Text.isBlank (Char.ofNat n) = false ∧
      Text.isPunctuation (Char.ofNat n) = false ∧ Token.isWordChar (Char.ofNat n) = true := by
    decide
  have hrange : 48 ≤ c.toNat ∧ c.toNat ≤ 57 := by
    simpa [Char.isDigit, UInt32.le_iff_toNat_le] using h
  rw [← Char.ofNat_toNat c]
  exact hall c.toNat (by omega) hrange.1

/-- A decimal numeral is a word, unless it is too long. -/
theorem isText_repr {n : Nat} (h : n.repr.length ≤ Token.lengthLimit) : IsText n.repr := by
  have hdigit : ∀ c ∈ Nat.toDigits 10 n, c.isDigit = true := fun c hmem =>
    Nat.isDigit_of_mem_toDigits (by decide) (by decide) hmem
  rw [← String.length_toList, Nat.toList_repr] at h
  obtain ⟨first, body, heq⟩ := List.exists_cons_of_ne_nil (Nat.toDigits_ne_nil (n := n) (b := 10))
  rw [heq] at h hdigit
  have hfirst := isWordChar_of_isDigit (hdigit first List.mem_cons_self)
  exact ⟨first, body, Nat.toList_repr.trans heq, .inr ⟨hfirst.1, hfirst.2.1,
    fun c hmem => (isWordChar_of_isDigit (hdigit c (List.mem_cons_of_mem _ hmem))).2.2, h⟩⟩

end Lexer

end ScriptedPng
