import ScriptedPng.Octets

/-!
# Sources

The text that is read, one character at a time: every octet is a character. Reading gives the next
character, or finds the end. One reading can be put back, and is then given again. A source may be
faulty: then its end is never found, and reading beyond its characters fails instead.

## Main definitions

* `Source` — what is left to read.
* `Source.read` — the next reading.
* `Source.unread` — puts a reading back.
-/

namespace ScriptedPng

/-- What reading gives: a character, or the end. -/
abbrev Reading := Option Char

/-- What is left to read. -/
structure Source where
  /-- The readings to come; an end among them was put back and is found once. -/
  ahead : List Reading
  /-- Why reading fails after them, if it does. -/
  fault : Option String := none
  /-- The first reading to come was put back. -/
  held : Bool := false
deriving DecidableEq, Repr

namespace Source

/-- The source that gives the characters. -/
def ofChars (chars : List Char) : Source where
  ahead := chars.map some

/-- The source whose characters are the octets. -/
def ofOctets (octets : Octets) : Source :=
  ofChars octets.toText.toList

/-- The source that fails for the given reason after `n` characters. -/
def failingAfter (n : Nat) (reason : String) (source : Source) : Source :=
  if source.ahead.length < n then source
  else { source with ahead := source.ahead.take n, fault := some reason }

/-- The next reading and what is left then. A failure leaves the source as it is. -/
def read (source : Source) : Except String (Reading × Source) :=
  match source.ahead with
  | [] =>
    match source.fault with
    | none => .ok (none, source)
    | some reason => .error reason
  | reading :: rest => .ok (reading, { source with ahead := rest, held := false })

/-- Puts a reading back; `none` if one is held already. -/
def unread (reading : Reading) (source : Source) : Option Source :=
  if source.held then none
  else some { source with ahead := reading :: source.ahead, held := true }

/-- The source after all but the given readings. -/
def skipTo (rest : List Reading) (source : Source) : Source :=
  { source with ahead := rest, held := false }

@[simp] theorem read_ofChars_cons (c : Char) (chars : List Char) :
    (ofChars (c :: chars)).read = .ok (some c, ofChars chars) := rfl

@[simp] theorem read_ofChars_nil : (ofChars []).read = .ok (none, ofChars []) := rfl

theorem read_unread {source after : Source} {reading : Reading}
    (h : source.unread reading = some after) : after.read = .ok (reading, source) := by
  simp only [unread] at h
  split at h
  · simp at h
  · obtain rfl := Option.some.inj h
    obtain ⟨ahead, fault, held⟩ := source
    simp_all [read]

end Source

end ScriptedPng
