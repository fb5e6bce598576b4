import ScriptedPng.Record.Field

/-!
# Positions in fields

A position leads from a field to something in it, turn by turn. What is at a position can be looked
at and replaced; what belongs to a field is found at a position before its own.

## Main definitions

* `Record.Turn`, `Record.Position` — a turn, and the turns that lead to something.
* `Value.at?` — what is at a position.
* `Value.changeAt` — a value with what is at a position changed.
* `Position.father?` — the position of what the field at a position belongs to.
-/

namespace ScriptedPng.Record

/-- A turn from something into what is in it. -/
inductive Turn where
  /-- To the part of a record at the place. -/
  | part (place : Nat)
  /-- To what is attached to a field under the name. -/
  | attached (name : String)
  /-- To the value of a field. -/
  | content
  /-- To the item of a list at the place. -/
  | item (place : Nat)
  /-- To a value that follows from the rest, and cannot be replaced. -/
  | derived (value : Value)

/-- The turns that lead to something, from the outside in. -/
abbrev Position := List Turn

namespace Value

/-- What a turn leads to. -/
def turn? : Turn → Value → Option Value
  | .part place, .field (.record _ _ parts) => parts[place]?.map field
  | .attached name, .field whole => whole.label.lookup name
  | .content, .field (.number _ _ _ _ _ value) => some value
  | .content, .field (.octets _ _ value) => some (.octets value)
  | .content, .field (.array _ _ value) => some value
  | .content, .field (.plain _ value) => some value
  | .item place, .list items => items[place]?
  | .item place, .octets items => items[place]?.map fun octet => .integer octet.toNat
  | .derived value, _ => some value
  | _, _ => none

/-- A value with something else where a turn leads to. -/
def replace : Turn → Value → Value → Value
  | .part place, .field part, .field (.record label kind parts) =>
    .field (.record label kind (parts.set place part))
  | .attached name, value, .field whole => .field (whole.mapLabel (·.attach name value))
  | .content, value, .field (.number label role format order choices _) =>
    .field (.number label role format order choices value)
  | .content, value, .field (.array label element _) => .field (.array label element value)
  | .content, value, .field (.plain label _) => .field (.plain label value)
  | .item place, value, .list items => .list (items.set place value)
  | _, _, whole => whole

/-- What is at a position. -/
def at? (value : Value) : Position → Option Value
  | [] => some value
  | turn :: rest => (value.turn? turn).bind fun inner => inner.at? rest

theorem at?_append (value : Value) (outer inner : Position) :
    value.at? (outer ++ inner) = (value.at? outer).bind fun found => found.at? inner := by
  induction outer generalizing value with
  | nil => rfl
  | cons turn rest ih =>
    simp only [List.cons_append, at?]
    cases value.turn? turn <;> simp [ih]

/-- A value with what is at a position changed. -/
def changeAt (f : Value → Value) : Position → Value → Value
  | [], value => f value
  | turn :: rest, value =>
    match value.turn? turn with
    | some inner => replace turn (changeAt f rest inner) value
    | none => value

end Value

/-- The position of what the field at a position belongs to: what has been put in its place, or the
record of a part, or the array of an element. -/
def Position.father? (position : Position) (field : Field) : Option Position :=
  if field.label.father?.isSome then some (position ++ [.attached Attribute.father.word])
  else if field.label.owner.isNone then none
  else match position.reverse with
    | .part _ :: outer => some outer.reverse
    | .item _ :: .content :: outer => some outer.reverse
    | _ => none

end ScriptedPng.Record
