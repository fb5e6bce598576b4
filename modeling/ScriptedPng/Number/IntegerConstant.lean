/-!
# Integer constants

An integer constant is decimal, octal after a leading zero, or hexadecimal after `0x` or `0X`, as in
C. No sign, blank, or separator is part of it.

## Main definitions

* `IntegerConstant.parse` — the value of a constant.
* `IntegerConstant.Failure` — why a text has none.
-/

namespace ScriptedPng.IntegerConstant

/-- Why a text has no value as an integer constant. -/
inductive Failure where
  /-- The text is no constant. -/
  | malformed
  /-- The text is a decimal constant with more digits than are converted. -/
  | tooManyDigits
deriving DecidableEq, Repr

/-- Decimal constants have at most so many digits. The other two bases have no bound, since their
conversion takes time in proportion to the digits. -/
def decimalLimit : Nat := 4300

/-- The value of an ASCII digit or letter as a digit: letters of either case follow the nine. -/
def digit? (c : Char) : Option Nat :=
  if '0' ≤ c ∧ c ≤ '9' then some (c.toNat - '0'.toNat)
  else if 'a' ≤ c ∧ c ≤ 'z' then some (c.toNat - 'a'.toNat + 10)
  else if 'A' ≤ c ∧ c ≤ 'Z' then some (c.toNat - 'A'.toNat + 10)
  else none

/-- The value of a digit of the base. -/
def digitIn? (base : Nat) (c : Char) : Option Nat :=
  (digit? c).filter (· < base)

/-- The number that the digits spell, the most significant first. -/
def ofDigits (base : Nat) (digits : List Nat) : Nat :=
  digits.foldl (fun n digit => n * base + digit) 0

/-- The value of at least one digit of the base. -/
def parseIn (base : Nat) (chars : List Char) : Except Failure Nat :=
  match chars.mapM (digitIn? base) with
  | none | some [] => .error .malformed
  | some digits =>
    if base = 10 ∧ decimalLimit < digits.length then .error .tooManyDigits
    else .ok (ofDigits base digits)

/-- The value of a constant given by its characters. -/
def parseChars : List Char → Except Failure Nat
  | '0' :: 'x' :: digits => parseIn 16 digits
  | '0' :: 'X' :: digits => parseIn 16 digits
  | '0' :: c :: digits => parseIn 8 (c :: digits)
  | digits => parseIn 10 digits

/-- The value of an integer constant. -/
def parse (text : String) : Except Failure Nat :=
  parseChars text.toList

end ScriptedPng.IntegerConstant
