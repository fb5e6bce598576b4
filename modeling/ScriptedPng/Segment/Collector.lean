import ScriptedPng.Diagnostic
import ScriptedPng.Octets
import ScriptedPng.Text.Blank

/-!
# Data segments

A data segment spells octets in one of two alphabets: a letter or digit for each octet, or two
hexadecimal digits for each octet, the high one first. Blanks are ignored everywhere. The collector
takes the characters of a segment one by one and fills a buffer that grows by a fixed quantum.

## Main definitions

* `Segment.Alphabet` — the two alphabets.
* `Segment.Collector` — the buffer with the octets completed and the digit pending.
* `Segment.Collector.feed`, `Segment.Collector.finish` — takes a character, and gives the octets.
* `Segment.decode` — the octets that a text spells.
-/

namespace ScriptedPng.Segment

/-- How a data segment spells octets. -/
inductive Alphabet where
  /-- A letter or digit for each octet; the values are 0 to 61. -/
  | base62
  /-- Two hexadecimal digits for each octet. -/
  | hex
deriving DecidableEq, Repr

/-- The value of a character that stands for an octet: digits, then small letters, then capitals. -/
def base62Value? (c : Char) : Option Nat :=
  if '0' ≤ c ∧ c ≤ '9' then some (c.toNat - '0'.toNat)
  else if 'a' ≤ c ∧ c ≤ 'z' then some (c.toNat - 'a'.toNat + 10)
  else if 'A' ≤ c ∧ c ≤ 'Z' then some (c.toNat - 'A'.toNat + 36)
  else none

/-- The value of a hexadecimal digit of either case. -/
def hexValue? (c : Char) : Option Nat :=
  if '0' ≤ c ∧ c ≤ '9' then some (c.toNat - '0'.toNat)
  else if 'a' ≤ c ∧ c ≤ 'f' then some (c.toNat - 'a'.toNat + 10)
  else if 'A' ≤ c ∧ c ≤ 'F' then some (c.toNat - 'A'.toNat + 10)
  else none

/-- The buffer grows by so many octets. -/
def quantum : Nat := 1024

/-- What has been taken of a data segment. -/
structure Collector where
  alphabet : Alphabet
  /-- Room for octets; the first `used` ones are completed. -/
  buffer : Array UInt8 := Array.replicate quantum 0
  used : Nat := 0
  /-- The high digit of the next octet. -/
  nibble : Option Nat := none
deriving DecidableEq, Repr

namespace Collector

/-- The octets completed. -/
def octets (collector : Collector) : Octets :=
  (collector.buffer.extract 0 collector.used).toList

/-- Adds an octet, making room first if there is none. -/
def append (value : Nat) (collector : Collector) : Collector :=
  let ⟨alphabet, buffer, used, nibble⟩ := collector
  let buffer := if used = buffer.size then buffer ++ Array.replicate quantum 0 else buffer
  ⟨alphabet, buffer.setIfInBounds used (UInt8.ofNat value), used + 1, nibble⟩

/-- Takes a character. -/
def feed (c : Char) (collector : Collector) : Except Diagnostic.Cause Collector :=
  if Text.isBlank c then .ok collector
  else
    match collector.alphabet with
    | .base62 =>
      match base62Value? c with
      | none => .error .badDataCharacter
      | some value => .ok (collector.append value)
    | .hex =>
      match hexValue? c, collector.nibble with
      | none, _ => .error .badDataCharacter
      | some low, some high => .ok { collector.append (high * 16 + low) with nibble := none }
      | some high, none => .ok { collector with nibble := some high }

/-- The octets of the segment, which must not end between the two digits of an octet. -/
def finish (collector : Collector) : Except Diagnostic.Cause Octets :=
  if collector.nibble.isSome then .error .oddHexDigits else .ok collector.octets

variable {collector : Collector} {cause : Diagnostic.Cause}

theorem cause_of_feed {c : Char} (h : collector.feed c = .error cause) :
    cause = .badDataCharacter ∧ Text.isBlank c = false := by
  unfold feed at h
  grind

theorem cause_of_finish (h : collector.finish = .error cause) : cause = .oddHexDigits := by
  unfold finish at h
  grind

end Collector

/-- The octets that a text spells. -/
def decode (alphabet : Alphabet) (text : String) : Except Diagnostic.Cause Octets := do
  let start : Collector := { alphabet }
  let collector ← text.toList.foldlM (fun collector c => collector.feed c) start
  collector.finish

end ScriptedPng.Segment
