/-!
# Double-precision numbers

A double is kept as its 64 bits, so that also one that is not a number stays what it is. A finite
double is a signed integer of at most 53 bits times a power of two whose exponent is at least -1074;
its bits, read as a number, grow with the value, and the mantissa carries into the exponent.

## Main definitions

* `Double` — a double-precision number.
* `Double.nearest` — the double nearest to a fraction, ties going to the even mantissa.
* `Double.truncate` — the integer part of a double.
-/

namespace ScriptedPng

/-- A double-precision number. -/
structure Double where
  bits : UInt64 := 0
deriving DecidableEq, Repr

namespace Double

/-- The exponent of the least significant bit of the smallest doubles. -/
def leastExponent : Int := -1074

/-- The bits of positive infinity; those of a finite double are smaller, the sign apart. -/
def infinityBits : Nat := 0x7ff <<< 52

/-- The bit that carries the sign. -/
def signBit : Nat := 1 <<< 63

/-- `num / den` divided by `2 ^ exponent` and rounded to an integer, ties going to the even one. -/
def roundScaled (num den : Nat) (exponent : Int) : Nat :=
  let num := num <<< (-exponent).toNat
  let den := den <<< exponent.toNat
  let quotient := num / den
  let twice := 2 * (num % den)
  if twice < den ∨ (twice = den ∧ quotient % 2 = 0) then quotient else quotient + 1

/-- An exponent that leaves the integer part of `num / den / 2 ^ exponent` with 53 bits, or the
least exponent where that leaves fewer. -/
def exponentFor (num den : Nat) : Int :=
  let estimate : Int := (num.log2 : Int) - den.log2 - 53
  let whole := (num <<< (-estimate).toNat) / (den <<< estimate.toNat)
  max leastExponent (if whole < 1 <<< 53 then estimate else estimate + 1)

/-- The bits of the double nearest to the positive fraction `num / den`. -/
def nearestBits (num den : Nat) : Nat :=
  let exponent := exponentFor num den
  let bits := ((exponent - leastExponent).toNat <<< 52) + roundScaled num den exponent
  min bits infinityBits

/-- The double whose magnitude has the given bits, with a sign. -/
def ofMagnitude (negative : Bool) (bits : Nat) : Double :=
  ⟨UInt64.ofNat (if negative then signBit + bits else bits)⟩

/-- The double nearest to `num / den` or to its negative; ties go to the even mantissa, and what is
too large becomes infinite. -/
def nearest (negative : Bool) (num den : Nat) : Double :=
  ofMagnitude negative (if num = 0 then 0 else nearestBits num den)

/-- The bits without the one of the sign. -/
def magnitude (value : Double) : Nat :=
  value.bits.toNat % signBit

/-- The double is neither infinite nor without a value. -/
def IsFinite (value : Double) : Prop :=
  value.magnitude < infinityBits

instance (value : Double) : Decidable value.IsFinite :=
  inferInstanceAs (Decidable (_ < _))

/-- The double is below zero. The negative zero is not. -/
def IsNegative (value : Double) : Prop :=
  signBit < value.bits.toNat ∧ value.magnitude ≤ infinityBits

instance (value : Double) : Decidable value.IsNegative :=
  inferInstanceAs (Decidable (_ ∧ _))

/-- The double as a number to compute with. -/
def toFloat (value : Double) : Float :=
  Float.ofBits value.bits

/-- The double that a computation has given. -/
def ofFloat (value : Float) : Double :=
  ⟨value.toBits⟩

/-- What keeps a double from having an integer part. -/
inductive NoInteger where
  /-- The double is infinite. -/
  | infinite
  /-- The double is not a number. -/
  | notANumber
deriving DecidableEq, Repr

/-- The integer part of a double: the value without its fraction. -/
def truncate (value : Double) : Except NoInteger Int :=
  let bits := value.bits.toNat
  let exponent := (bits >>> 52) % 0x800
  let fraction := bits % (1 <<< 52)
  if exponent = 0x7ff then
    .error (if fraction = 0 then .infinite else .notANumber)
  else
    let mantissa := if exponent = 0 then fraction else (1 <<< 52) + fraction
    let magnitude : Nat := (mantissa <<< (exponent - 1075)) >>> (1075 - max exponent 1)
    .ok (if bits < signBit then (magnitude : Int) else -magnitude)

end Double

end ScriptedPng
