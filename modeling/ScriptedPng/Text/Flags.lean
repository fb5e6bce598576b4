/-!
# Sets of flags as text

A set of named flags is shown by the names of the flags that are set, joined by bars, and by the
number whose bits they are; the first flag is the least significant bit.

## Main definitions

* `Text.flagNumber` — the number whose bits are the flags.
* `Text.flagOf` — a flag of a number.
* `Text.showFlags` — the names and the number.
-/

namespace ScriptedPng.Text

/-- The number whose bits are the flags, the first one the least significant. -/
def flagNumber : List Bool → Nat
  | [] => 0
  | flag :: rest => flag.toNat + 2 * flagNumber rest

/-- The flag at the given place of a number; a negative one is in two's complement. -/
def flagOf (n : Int) (place : Nat) : Bool :=
  n >>> place % 2 = 1

/-- The flags of a set named `kind`: the names of those set, or `NONE`, and the number. -/
def showFlags (kind : String) (flags : List (String × Bool)) : String :=
  let names := (flags.filter Prod.snd).map Prod.fst
  let shown := if names = [] then "NONE" else "|".intercalate names
  s!"<{kind}.{shown}: {flagNumber (flags.map Prod.snd)}>"

end ScriptedPng.Text
