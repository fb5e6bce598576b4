import ScriptedPng.Octets

/-!
# Hexadecimal text

## Main definitions

* `Text.hex` — a number in hexadecimal, padded with zeros to a least width.
* `Text.hexOctets` — two digits for each octet.
* `Text.hexInteger` — a signed number with the mark `0x`.
-/

namespace ScriptedPng.Text

/-- The lower-case hexadecimal digits of `n`, padded with zeros to at least `width` digits. -/
def hex (width n : Nat) : String :=
  let digits := Nat.toDigits 16 n
  String.ofList (List.replicate (width - digits.length) '0' ++ digits)

/-- Two hexadecimal digits for each octet. -/
def hexOctets (octets : Octets) : String :=
  octets.foldl (fun text octet => text ++ hex 2 octet.toNat) ""

/-- A signed number in hexadecimal: the sign, the mark `0x` and the digits. -/
def hexInteger (n : Int) : String :=
  (if n < 0 then "-0x" else "0x") ++ hex 1 n.natAbs

end ScriptedPng.Text
