import ScriptedPng.Octets

/-!
# Integer formats

Integers are stored in a fixed number of octets, signed ones in two's complement, in either byte
order.

## Main definitions

* `IntegerFormat` — a width and whether there is a sign.
* `IntegerFormat.ofLetter?` — the format that a letter stands for.
* `IntegerFormat.encode?`, `IntegerFormat.decode` — the octets of an integer, and back.
-/

namespace ScriptedPng

/-- The order of the octets of an integer. -/
inductive ByteOrder where
  /-- The most significant octet first. -/
  | big
  /-- The least significant octet first. -/
  | little
deriving DecidableEq, Repr

/-- How an integer is stored. -/
structure IntegerFormat where
  /-- The number of octets. -/
  width : Nat
  signed : Bool := false
deriving DecidableEq, Repr

/-- What keeps a number from being stored: it does not have the format. -/
structure Misfit where
  format : IntegerFormat
  order : ByteOrder
  /-- The integer that should have the format; `none` if there is no integer at all. -/
  number : Option Int
deriving DecidableEq, Repr

namespace ByteOrder

/-- Octets in this order from octets with the most significant first, and back. -/
def arrange : ByteOrder → Octets → Octets
  | big, octets => octets
  | little, octets => octets.reverse

@[simp] theorem arrange_arrange (order : ByteOrder) (octets : Octets) :
    order.arrange (order.arrange octets) = octets := by
  cases order <;> simp [arrange]

@[simp] theorem length_arrange (order : ByteOrder) (octets : Octets) :
    (order.arrange octets).length = octets.length := by
  cases order <;> simp [arrange]

end ByteOrder

namespace IntegerFormat

/-- The format that a letter stands for. A small letter gives a sign. -/
def ofLetter? (letter : Char) : Option IntegerFormat :=
  match letter with
  | 'B' => some ⟨1, false⟩
  | 'H' => some ⟨2, false⟩
  | 'I' => some ⟨4, false⟩
  | 'Q' => some ⟨8, false⟩
  | 'b' => some ⟨1, true⟩
  | 'h' => some ⟨2, true⟩
  | 'i' => some ⟨4, true⟩
  | 'q' => some ⟨8, true⟩
  | _ => none

/-- How many integers have the format. -/
def count (format : IntegerFormat) : Int :=
  (Nat.pow 256 format.width : Nat)

/-- The least integer of the format. -/
def least (format : IntegerFormat) : Int :=
  if format.signed then -(format.count / 2) else 0

/-- The integer has the format. -/
def Fits (format : IntegerFormat) (n : Int) : Prop :=
  format.least ≤ n ∧ n < format.least + format.count

instance (format : IntegerFormat) (n : Int) : Decidable (format.Fits n) :=
  inferInstanceAs (Decidable (_ ∧ _))

/-- The octets of an integer that has the format. -/
def encode? (format : IntegerFormat) (order : ByteOrder) (n : Int) : Option Octets :=
  if format.Fits n then some (order.arrange (Octets.big format.width (n % format.count).toNat))
  else none

/-- The integer of the format that the octets stand for. -/
def decode (format : IntegerFormat) (order : ByteOrder) (octets : Octets) : Int :=
  let n : Int := (order.arrange octets).number
  if n < format.least + format.count then n else n - format.count

theorem length_encode? {format : IntegerFormat} {order : ByteOrder} {n : Int} {octets : Octets}
    (h : format.encode? order n = some octets) : octets.length = format.width := by
  simp only [encode?] at h
  split at h
  · obtain rfl := Option.some.inj h
    simp
  · simp at h

end IntegerFormat

end ScriptedPng
