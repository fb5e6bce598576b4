import ScriptedPng.Record.Encoding

/-!
# Use of fields

The part of a record is held from its first use on. An operation on a record uses all its parts, and
then goes into one after the other up to the first fault.

## Main definitions

* `Record.Use` — what an operation goes into.
* `Field.use` — a field after an operation.
-/

namespace ScriptedPng.Record

/-- What an operation goes into. -/
structure Use where
  /-- Fields in the values of numbers, and of fields without a form, are gone into. -/
  values : Bool := false
  /-- The operation ends at this part. -/
  endsAt : Field → Bool := fun _ => false

/-- The given things up to the first one with the property, which is the last one then. -/
def takeThrough {α : Type} (last : α → Bool) : List α → List α
  | [] => []
  | a :: rest => if last a then [a] else a :: takeThrough last rest

mutual

/-- A field after an operation on it: the parts that have been used are held. -/
def Field.use (use : Use) : Field → Field
  | .number label role format order choices value =>
    .number label role format order choices (if use.values then value.use use else value)
  | .octets label length value => .octets label length value
  | .array label element value => .array label element (value.use use)
  | .record label kind parts =>
    let entered := takeThrough (fun place => parts[place]?.any use.endsAt) kind.order
    .record label kind (Field.useParts use kind.order entered 0 parts)
  | .plain label value => .plain label (if use.values then value.use use else value)

/-- The parts of a record from a place on: those at the places that are stored are held, those at
the places that are entered have been used. -/
def Field.useParts (use : Use) (stored entered : List Nat) (place : Nat) : List Field → List Field
  | [] => []
  | part :: rest =>
    let part := if entered.contains place then part.use use else part
    (if stored.contains place then part.hold else part) ::
      Field.useParts use stored entered (place + 1) rest

/-- The same for the fields in a value. -/
def Value.use (use : Use) : Value → Value
  | .list items => .list (Value.useAll use items)
  | .field field => .field (field.use use)
  | value => value

/-- The same for the fields in several values. -/
def Value.useAll (use : Use) : List Value → List Value
  | [] => []
  | value :: rest => value.use use :: Value.useAll use rest

end

namespace Use

/-- Finding out the octets of a field. -/
def raw : Use where
  endsAt field := !field.raw.isOk

/-- Finding out the size of a field. -/
def size : Use where
  endsAt field := !field.size.isOk

/-- Finding out the value of a field. -/
def value : Use where
  values := true

end Use

end ScriptedPng.Record
