import ScriptedPng.Number.Double

/-!
# Fixed-point numbers

Gamma and chromaticities are stored as integers: the value times 100000, rounded.

## Main definitions

* `FixedPoint.ofDouble` — the stored integer.
-/

namespace ScriptedPng.FixedPoint

/-- A unit stands for so many stored steps. -/
def scale : Float := 100000

/-- The stored integer of a value: it is scaled, a half is added, and the fraction is dropped. -/
def ofDouble (value : Double) : Except Double.NoInteger Int :=
  (Double.ofFloat (value.toFloat * scale + 0.5)).truncate

end ScriptedPng.FixedPoint
