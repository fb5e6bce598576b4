import ScriptedPng.Proofs.Number.Literals
import ScriptedPng.Proofs.Segment.Decoding

/-!
# Numbers as constants

Each number is written as a constant in its decimal numeral, in hexadecimal digits of either case,
and in octal ones, the latter two with as many leading zeros as one likes. Tokens are read as
constants up to a limit.

## Main definitions

* `Block.ReadsLiterals` — tokens are read as the numbers whose literals they are, up to a limit.

## Main statements

* `IntegerConstant.Digits.toDigits`, `Digits.zeros`, `Digits.of_toLower` — what digits spell.
* `Block.readsLiterals_integer` — what becomes of a token, by what its text is.
* `Block.constants_literal` — integer constants are the literals, and each number has all its forms.
-/

namespace ScriptedPng

namespace IntegerConstant

variable {base d n : Nat} {c mark : Char} {chars : List Char}

/-! ## Digits -/

/-- Digits have their values in either case. -/
theorem digitIn?_toLower (base : Nat) (c : Char) : digitIn? base c.toLower = digitIn? base c :=
  congrArg (Option.filter _) (Segment.toLower_congr (f := digit?) (by decide) c)

theorem isDigit_toLower (hbase : base ≤ 16) : IsDigit base c.toLower d ↔ IsDigit base c d := by
  rw [← digitIn?_eq_some_iff hbase, digitIn?_toLower, digitIn?_eq_some_iff hbase]

/-- Zero is a digit of each base. -/
theorem isDigit_zero (hbase : 0 < base) : IsDigit base '0' 0 :=
  ⟨hbase, _, List.mem_cons_self, rfl⟩

namespace Digits

/-- The digits of a number spell it. -/
theorem toDigits (hone : 1 < base) (hbase : base ≤ 16) (n : Nat) :
    Digits base (Nat.toDigits base n) n := by
  obtain ⟨digits, hdigits, -, hvalue⟩ := mapM_toDigits hone hbase n
  exact hvalue ▸ (digits_of_mapM hbase hdigits).2

/-- Leading zeros count for nothing. -/
theorem zeros (hbase : 0 < base) (h : Digits base chars n) (zeros : Nat) :
    Digits base (List.replicate zeros '0' ++ chars) n := by
  induction zeros with
  | zero => exact h
  | succ zeros ih =>
    have hzero := cons (isDigit_zero hbase) ih
    rwa [Nat.zero_mul, Nat.zero_add] at hzero

/-- Letters count for the same in either case. -/
theorem of_toLower (hbase : base ≤ 16) (h : Digits base (chars.map Char.toLower) n) :
    Digits base chars n := by
  induction chars generalizing n with
  | nil => exact h
  | cons c chars ih =>
    cases h with
    | cons hc hrest =>
      rw [List.length_map]
      exact cons ((isDigit_toLower hbase).1 hc) (ih hrest)

end Digits

/-! ## Forms of a number -/

theorem denotes_hexadecimal {zeros : Nat} (hmark : mark = 'x' ∨ mark = 'X')
    (h : chars.map Char.toLower = List.replicate zeros '0' ++ Nat.toDigits 16 n) :
    Denotes ('0' :: mark :: chars) n := by
  refine .hexadecimal hmark ?_ (.of_toLower (by decide) ?_)
  · rintro rfl
    exact Nat.toDigits_ne_nil (List.append_eq_nil_iff.1 h.symm).2
  · exact h ▸ (Digits.toDigits (by decide) (by decide) n).zeros (by decide) zeros

theorem denotes_octal (n zeros : Nat) :
    Denotes (List.replicate (zeros + 1) '0' ++ Nat.toDigits 8 n) n :=
  .octal (fun h => Nat.toDigits_ne_nil (List.append_eq_nil_iff.1 h).2)
    ((Digits.toDigits (by decide) (by decide) n).zeros (by decide) zeros)

end IntegerConstant

namespace Block

open Diagnostic IntegerConstant

/-- A token, whether quoted or not, is read as the number whose literal its text is, if the number
is not above the limit. Otherwise the diagnostic tells the text and the line of the token. -/
structure ReadsLiterals (kind : Constant) (limit : Nat)
    (read : Option Token → Except Diagnostic Nat) : Prop where
  ok_iff (token : Token) (n : Nat) :
    read (some token) = .ok n ↔ Denotes token.text.toList n ∧ n ≤ limit
  range_iff (token : Token) :
    read (some token) =
        .error ⟨.constantOutOfRange kind token.text, some (.at token.line)⟩ ↔
      ∃ n, Denotes token.text.toList n ∧ limit < n
  unexpected_iff (token : Token) :
    read (some token) = .error ⟨.badConstant kind token.text, some (.at token.line)⟩ ↔
      ∀ n, ¬ Denotes token.text.toList n

/-- What becomes of a token depends on whether its text is a literal, and on the number. -/
theorem readsLiterals_integer (kind : Constant) (limit : Nat) :
    ReadsLiterals kind limit (integer kind limit) := by
  refine ⟨fun token n => ?_, fun token => ?_, fun token => ?_⟩
  all_goals
    simp only [integer, ← parse_eq_ok_iff]
    cases parse token.text with
    | error failure => simp
    | ok value =>
      by_cases hlimit : limit < value
      · simp only [if_pos hlimit]
        grind
      · simp only [if_neg hlimit]
        grind

/-- Integer constants are the literals, and each number has all its forms: the decimal numeral, the
hexadecimal digits in any case behind any number of zeros, and the octal digits behind at least one
zero. Long and byte constants are the literals up to `2 ^ 31 - 2` and up to 255. -/
theorem constants_literal :
    (∀ (text : String) (n : Nat), parse text = .ok n ↔ Denotes text.toList n) ∧
    (∀ n : Nat, n.repr.length ≤ 4300 → parse n.repr = .ok n) ∧
    (∀ (n zeros : Nat) (mark : Char) (digits : List Char), mark = 'x' ∨ mark = 'X' →
      digits.map Char.toLower = List.replicate zeros '0' ++ Nat.toDigits 16 n →
      parse (String.ofList ('0' :: mark :: digits)) = .ok n) ∧
    (∀ n zeros : Nat, parse (String.ofList
      (List.replicate (zeros + 1) '0' ++ Nat.toDigits 8 n)) = .ok n) ∧
    ReadsLiterals .long (2 ^ 31 - 2) long ∧ ReadsLiterals .byte 255 byte ∧
    (∀ (kind : Constant) (text : String),
      (Cause.constantOutOfRange kind text).category = .range ∧
      (Cause.badConstant kind text).category = .unexpectedToken) := by
  refine ⟨fun text n => parse_eq_ok_iff, fun n h => parse_repr h, ?_, ?_,
    readsLiterals_integer _ _, readsLiterals_integer _ _, fun _ _ => ⟨rfl, rfl⟩⟩
  · intro n zeros mark digits hmark hdigits
    rw [parse_eq_ok_iff, String.toList_ofList]
    exact denotes_hexadecimal hmark hdigits
  · intro n zeros
    rw [parse_eq_ok_iff, String.toList_ofList]
    exact denotes_octal n zeros

/-- Letters of both cases in one literal, behind a zero that counts for nothing. -/
theorem constants_literal_mixedCase :
    ['0', 'f', 'F'].map Char.toLower = List.replicate 1 '0' ++ Nat.toDigits 16 255 ∧
    parse (String.ofList ['0', 'X', '0', 'f', 'F']) = .ok 255 ∧
    (4095 : Nat).repr.length ≤ 4300 ∧ parse (4095 : Nat).repr = .ok 4095 :=
  ⟨by decide, constants_literal.2.2.1 255 1 'X' ['0', 'f', 'F'] (.inr rfl) (by decide),
    by decide, constants_literal.2.1 4095 (by decide)⟩

end Block

end ScriptedPng
