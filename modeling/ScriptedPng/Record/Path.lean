import ScriptedPng.Record.Packing
import ScriptedPng.Record.Position
import ScriptedPng.Record.Text
import ScriptedPng.Record.Update
import ScriptedPng.Record.Usage

/-!
# Paths to fields

A path leads from a field to one nested in it, by names of parts and attributes and by places of
elements of arrays; negative places count from the end. An operation at the end of a path gives an
outcome and a new field. The parts of a record that have been used no longer follow later
contributions to their class.

## Main definitions

* `Record.Step` — a step of a path.
* `Record.Visit` — an operation on a field.
* `Visit.follow` — the position that a path leads to.
* `Visit.set`, `Visit.assign`, `Visit.append`, `Visit.clear`, `Visit.setOrder` — changes there.
* `Visit.shown`, `Visit.raw`, `Visit.size`, `Visit.layout`, `Visit.text`, `Visit.description`,
  `Visit.identity`, `Visit.count` — what is found out there.
* `Visit.pack` — the octets of the field there, brought up to date.
-/

namespace ScriptedPng.Record

/-- A step of a path. -/
inductive Step where
  /-- To what stands under a name. -/
  | name (name : String)
  /-- To an element. -/
  | place (index : Int)
deriving DecidableEq, Repr

/-- The place in a sequence; a negative index counts from the end. -/
def resolveIndex (index : Int) (length : Nat) : Except Fault Nat :=
  let place := if index < 0 then index + length else index
  if 0 ≤ place ∧ place < length then .ok place.toNat else .error .badIndex

/-- The turns to an element of a value; an array has the elements of its value. -/
def Value.turnsTo (index : Int) : Value → Except Fault Position
  | .list items => do return [.item (← resolveIndex index items.length)]
  | .octets items => do return [.item (← resolveIndex index items.length)]
  | .field (.array _ _ value) => do return .content :: (← value.turnsTo index)
  | _ => .error .wrongType

/-- An operation on a field: an outcome or a fault, and the field as it is then. -/
abbrev Visit := EStateM Fault Field

namespace Visit

/-- Takes over an outcome or a fault. -/
def lift {α : Type} (outcome : Except Fault α) : Visit α :=
  match outcome with
  | .ok a => pure a
  | .error fault => throw fault

/-! ## Positions -/

/-- What is at a position. -/
def look (position : Position) : Visit Value := do
  match (Value.field (← get)).at? position with
  | some value => return value
  | none => throw .missing

/-- The field at a position. -/
def lookField (position : Position) : Visit Field := do
  match ← look position with
  | .field field => return field
  | _ => throw .missing

/-- The field at a position, if there is one. -/
def field? (position : Position) : Visit (Option Field) := do
  match (Value.field (← get)).at? position with
  | some (.field field) => return some field
  | _ => return none

/-- Changes what is at a position. -/
def change (position : Position) (f : Value → Value) : Visit Unit :=
  modify fun field =>
    match (Value.field field).changeAt f position with
    | .field field => field
    | _ => field

/-- Puts a field in the place of the one at a position. -/
def put (position : Position) (field : Field) : Visit Unit :=
  change position fun _ => .field field

/-- Uses what is at a position. -/
def use (position : Position) (use : Use) : Visit Unit :=
  change position (Value.use use)

/-- The position of an attribute of a field at a position. -/
def turnToAttribute (position : Position) (field : Field) : Attribute → Visit Position
  | .value => return position ++ [.content]
  | .size => do
    use position .size
    return position ++ [.derived (.integer (← lift field.size))]
  | .raw => do
    use position .raw
    return position ++ [.derived (.octets (← lift field.raw))]
  | .father => return (position.father? field).getD (position ++ [.derived .null])
  | .order => return position ++ [.derived (.member (orderMember field.order))]
  | _ => throw .missing

/-- The position of what stands under a name in a field at a position. A part is held. -/
def turnToName (position : Position) (field : Field) (name : String) : Visit Position := do
  if (field.label.lookup name).isSome then
    return position ++ [.attached name]
  match field with
  | .record _ kind _ =>
    if kind.names.contains name then
      put position (field.holdPart name)
      return position ++ [.part (kind.names.idxOf name)]
  | _ => pure ()
  match Attribute.ofWord? name with
  | some found => turnToAttribute position field found
  | none => throw .missing

/-- The position that a step leads to. -/
def take (position : Position) (step : Step) : Visit Position := do
  match step, ← look position with
  | .place index, value => return position ++ (← lift (value.turnsTo index))
  | .name name, .field field => turnToName position field name
  | .name name, .member member =>
    if name = Attribute.value.word then return position ++ [.derived (.integer member.number)]
    else throw .missing
  | .name _, _ => throw .missing

/-- The position that a path leads to. -/
def follow (path : List Step) : Visit Position :=
  path.foldlM take []

/-! ## Changes -/

/-- Sets what stands under a name in the field at a position. -/
def setName (position : Position) (name : String) (value : Value) : Visit Unit := do
  put position ((← lookField position).holdPart name)
  put position (← lift ((← lookField position).set name value))

/-- Sets what is at the end of a path. The way there is found before the value is known. -/
def set (path : List Step) (value : Except Fault Value) : Visit Unit := do
  match path.getLast? with
  | none => throw .badIndex
  | some last =>
    let position ← follow path.dropLast
    let value ← lift value
    match last with
    | .name name => setName position name value
    | .place _ => throw .wrongType

/-- Sets the value of the field at the end of a path. -/
def assign (path : List Step) (value : Except Fault Value) : Visit Unit := do
  let position ← follow path
  setName position Attribute.value.word (← lift value)

/-- Adds an element to the array, or to the list, at the end of a path. -/
def append (path : List Step) (value : Except Fault Value) : Visit Unit := do
  let position ← follow path
  match ← look position with
  | .list items =>
    let value ← lift value
    change position fun _ => .list (items ++ [value])
  | .field (.array label element current) =>
    put position (← lift ((Field.array label element current).append (← lift value)))
  | _ => throw .missing

/-- Takes all elements out of the array, or out of the list, at the end of a path. -/
def clear (path : List Step) : Visit Unit := do
  let position ← follow path
  match ← look position with
  | .list _ => change position fun _ => .list []
  | .field field => put position (← lift field.clear)
  | _ => throw .missing

/-- Sets the byte order of the field at the end of a path; it has to be a known one. -/
def setOrder (path : List Step) (order : Option ByteOrder) : Visit Unit := do
  let position ← follow path
  match order with
  | none => throw .unknownName
  | some order => setName position Attribute.order.word (.member (orderMember order))

/-! ## Findings -/

/-- Finds something out about what is at the end of a path, which is used by that. -/
def find {α : Type} (path : List Step) (use : Use) (f : Value → Except Fault α) : Visit α := do
  let position ← follow path
  let value ← look position
  Visit.use position use
  lift (f value)

/-- Finds something out about the field at the end of a path. -/
def findField {α : Type} (path : List Step) (use : Use) (f : Field → Except Fault α) : Visit α :=
  find path use fun
    | .field field => f field
    | _ => .error .missing

/-- The value of the field there, with the values nested in it. A member of an enumeration stands
for its number. -/
def shown (path : List Step) : Visit Shown :=
  find path .value fun
    | .field field => field.shown
    | .member member => .ok (.integer member.number)
    | _ => .error .missing

/-- The octets of the field there. -/
def raw (path : List Step) : Visit Octets :=
  findField path .raw fun field =>
    if field.hides .raw then .error .missing else field.raw

/-- The size of the field there. -/
def size (path : List Step) : Visit Nat :=
  findField path .size Field.size

/-- Where the parts of the record there lie. -/
def layout (path : List Step) : Visit (List (String × Nat × Nat)) :=
  findField path .size Field.layout

/-- What is there as text, a field by its value. -/
def text (path : List Step) : Visit String :=
  find path .value Value.text

/-- What is there as text. -/
def description (path : List Step) : Visit String :=
  find path .value Value.description

/-- The number of octets or elements there. -/
def count (path : List Step) : Visit Nat := do
  lift (← look (← follow path)).count

/-- The name of the field there, its kind, and the kind of what it belongs to. -/
def identity (path : List Step) : Visit (Option String × String × Option String) := do
  let field ← lookField (← follow path)
  let owner := match field.label.father? with
    | some other => other.kindName?
    | none => field.label.owner
  return (field.label.name, field.kindName, owner)

/-! ## Packing -/

/-- What the field at a position can refer to. -/
def surroundings (position : Position) (field : Field) : Visit Surroundings := do
  match field.label.father?, position.father? field with
  | some other, _ => return .elsewhere other
  | none, none => return {}
  | none, some outer =>
    let whole ← lookField outer
    let father ← match outer.father? whole with
      | some position => field? position
      | none => pure none
    return {
      refer := whole.refer father
      father := fun field =>
        match (Value.field whole).changeAt (fun _ => .field field) (position.drop outer.length) with
        | .field whole => some whole
        | _ => none }

/-- Uses the fields that a number depends on. -/
def useDependencies (position : Position) (field : Field) : Visit Unit := do
  match field with
  | .number _ role .. =>
    match position.father? field with
    | none => return
    | some outer =>
      role.names.forM fun name => do
        let there ← turnToName outer (← lookField outer) name
        use there (match role with | .sizeOf _ => .size | _ => .raw)
  | _ => return

/-- The octets of the field at the end of a path, which is brought up to date. -/
def pack (path : List Step) : Visit Octets := do
  let position ← follow path
  let field ← lookField position
  let around ← surroundings position field
  let (packed, field) := field.pack around
  put position field
  use position .raw
  try useDependencies position field catch _ => pure ()
  lift packed

end Visit

end ScriptedPng.Record
