import ScriptedPng.Number.Double
import ScriptedPng.Text.Blank
import ScriptedPng.Text.DecimalDigit

/-!
# Double-precision constants

A double-precision constant is an optional sign followed by a decimal number, with or without a
fraction and an exponent, or by `inf`, `infinity` or `nan` in any case. Spaces may surround it,
decimal digits may be of any script, and a single underscore may stand between two digits.

## Main definitions

* `DoubleConstant.parse?` — the double nearest to a constant.
-/

namespace ScriptedPng.DoubleConstant

open Text

/-- Spaces outside ASCII become plain ones and digits of any script ASCII ones; nothing else outside
ASCII is part of a constant. -/
def normalize? (c : Char) : Option Char :=
  if c.toNat < 127 then some c
  else if isSpace c then some ' '
  else (decimalValue? c).map fun digit => Char.ofNat ('0'.toNat + digit)

/-- The characters without the blanks at both ends. -/
def trim (chars : List Char) : List Char :=
  ((chars.dropWhile isBlank).reverse.dropWhile isBlank).reverse

/-- Takes out the underscores; `none` if one does not stand between two digits. The first argument
tells whether the character before is a digit. -/
def joinDigits? : Bool → List Char → Option (List Char)
  | _, [] => some []
  | afterDigit, '_' :: c :: rest =>
    if afterDigit && c.isDigit then joinDigits? false (c :: rest) else none
  | _, ['_'] => none
  | _, c :: rest => (joinDigits? c.isDigit rest).map (c :: ·)

/-- A sign at the front, and what follows it. -/
def splitSign : List Char → Bool × List Char
  | '+' :: rest => (false, rest)
  | '-' :: rest => (true, rest)
  | rest => (false, rest)

/-- The number that decimal digits spell. -/
def ofDigits (digits : List Char) : Nat :=
  digits.foldl (fun n c => n * 10 + (c.toNat - '0'.toNat)) 0

/-- The exponent at the end of a constant: none, or the letter `e` and a signed number. -/
def exponent? : List Char → Option Int
  | [] => some 0
  | c :: rest =>
    let (negative, digits) := splitSign rest
    if (c = 'e' ∨ c = 'E') ∧ digits ≠ [] ∧ digits.all Char.isDigit then
      some (if negative then -(ofDigits digits : Int) else ofDigits digits)
    else
      none

/-- Decimal orders of magnitude from here on are beyond the largest double. -/
def largestOrder : Int := 400

/-- The double nearest to `digits * 10 ^ exponent`, or to its negative. Values far outside the range
of doubles are recognised by their order of magnitude. -/
def scale (negative : Bool) (digits : Nat) (exponent : Int) : Double :=
  let order : Int := (Nat.toDigits 10 digits).length + exponent
  if digits = 0 ∨ order < -largestOrder then Double.ofMagnitude negative 0
  else if largestOrder < order then Double.ofMagnitude negative Double.infinityBits
  else Double.nearest negative (digits * Nat.pow 10 exponent.toNat) (Nat.pow 10 (-exponent).toNat)

/-- The double nearest to a decimal number without sign, or to its negative. -/
def decimal? (negative : Bool) (chars : List Char) : Option Double :=
  let whole := chars.takeWhile Char.isDigit
  let afterWhole := chars.dropWhile Char.isDigit
  let (fraction, afterFraction) :=
    match afterWhole with
    | '.' :: rest => (rest.takeWhile Char.isDigit, rest.dropWhile Char.isDigit)
    | rest => ([], rest)
  if whole = [] ∧ fraction = [] then none
  else (exponent? afterFraction).map fun exponent =>
    scale negative (ofDigits (whole ++ fraction)) (exponent - fraction.length)

/-- The value of a constant given by its characters. -/
def parseChars? (chars : List Char) : Option Double := do
  let chars ← chars.mapM normalize?
  let chars ← joinDigits? false (trim chars)
  let (negative, magnitude) := splitSign chars
  let name := String.ofList (magnitude.map Char.toLower)
  if name = "inf" ∨ name = "infinity" then
    some (Double.ofMagnitude negative Double.infinityBits)
  else if name = "nan" then
    some (Double.ofMagnitude negative (Double.infinityBits + (1 <<< 51)))
  else
    decimal? negative magnitude

/-- The value of a double-precision constant. -/
def parse? (text : String) : Option Double :=
  parseChars? text.toList

end ScriptedPng.DoubleConstant
