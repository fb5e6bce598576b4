import ScriptedPng.Record.Encoding

/-!
# Changing fields

A value is checked and converted before it is stored, so that a fault leaves the field as it was.
Setting a part of a record to a field replaces it; setting it to anything else sets its value. A
field that is given is a value, and stands in its new place only.

## Main definitions

* `Field.ofNumber`, `Field.ofOctets`, `Field.ofArray` — fields with checked values.
* `Field.assign` — sets the value of a field.
* `Field.setPart`, `Field.set` — sets what stands under a name in a field.
* `Field.append`, `Field.clear`, `Value.count` — the elements of an array.
-/

namespace ScriptedPng.Record

/-- Counts of octets are below this limit, and not below its negative. -/
def countLimit : Int := 0x8000000000000000

/-- The octets that are taken for keeping octets together. -/
def octetsOverhead : Int := 33

/-- So many zeros; none if the count is negative. -/
def zeros (n : Int) : Except Fault Octets :=
  if n < -countLimit ∨ countLimit ≤ n then .error .hugeCount
  else .ok (List.replicate n.toNat 0)

/-- As many zeros as a value asks for, which may be none but not less. -/
def zerosOf (n : Int) : Except Fault Octets :=
  if -countLimit ≤ n ∧ n < 0 then .error .badOctet
  else if countLimit - octetsOverhead ≤ n then .error .hugeCount
  else zeros n

/-- The octet of a value in a list. -/
def octetOf : Value → Except Fault UInt8
  | .integer n => if 0 ≤ n ∧ n < 256 then .ok (UInt8.ofNat n.toNat) else .error .badOctet
  | _ => .error .wrongType

namespace Value

/-- The elements of a value; an array has those of its value. -/
def elements : Value → Except Fault (List Value)
  | .list items => .ok items
  | .octets data => .ok (data.map fun octet => .integer octet.toNat)
  | .field (.array _ _ value) => elements value
  | _ => .error .wrongType

/-- The number of octets or elements. -/
def count : Value → Except Fault Nat
  | .list items => .ok items.length
  | .octets data => .ok data.length
  | .field (.octets _ _ data) => .ok data.length
  | .field (.array _ _ value) => count value
  | _ => .error .wrongType

/-- The octets of a value: octets as they are, those in a list, or a number of zeros. -/
def toOctets : Value → Except Fault Octets
  | .octets data => .ok data
  | .integer n => zerosOf n
  | value => do (← value.elements).mapM octetOf

end Value

/-- The octets of a value, which are as many as required. -/
def octetsOfLength (length : Option Int) (value : Value) : Except Fault Octets := do
  match length with
  | none => value.toOctets
  | some n =>
    if (← value.count) = n then value.toOctets else .error (.wrongSize n)

/-- The value of a number: a member if the number belongs to an enumeration. -/
def numberOf (choices : Option Enumeration) (value : Value) : Except Fault Value :=
  match choices, value with
  | none, value => .ok value
  | some enumeration, .member member =>
    if member.kind = enumeration.name then .ok (.member member) else .error .notMember
  | some enumeration, .integer n =>
    match enumeration.member? n with
    | some member => .ok (.member member)
    | none => .error .notMember
  | some _, _ => .error .notMember

namespace Field

/-- A number that is set from outside. -/
def ofNumber (format : IntegerFormat) (order : ByteOrder) (choices : Option Enumeration)
    (value : Value) : Except Fault Field :=
  (numberOf choices value).map (.number .fresh .stored format order choices)

/-- Octets; zeros if there is no value. -/
def ofOctets (length : Option Int) (value : Value) : Except Fault Field := do
  let value ← match value with
    | .null => (zeros (length.getD 0)).map Value.octets
    | value => .ok value
  return .octets .fresh length (← octetsOfLength length value)

/-- An array of records. -/
def ofArray (element : ClassRef) (value : Value) : Except Fault Field :=
  value.elements.map fun items => .array .fresh element (.list items)

/-- Sets the value of a field. -/
def assign (value : Value) : Field → Except Fault Field
  | number label role format order choices _ =>
    (numberOf choices value).map (number label role format order choices)
  | octets label length _ => (octetsOfLength length value).map (octets label length)
  | array label element _ => .ok (array label element value)
  | record label kind parts =>
    match value with
    | .null => .ok (record label kind parts)
    | _ => .error .wholeRecord
  | plain label _ => .ok (plain label value)

/-- A record with one part replaced, which is held then. Other fields have no parts. -/
def replacePart (whole : Field) (name : String) (part : Field) : Field :=
  match whole with
  | record label kind parts =>
    record label kind (parts.set (kind.names.idxOf name) part.hold)
  | field => field

/-- A record with one part held. -/
def holdPart (whole : Field) (name : String) : Field :=
  match whole.part? name with
  | some part => whole.replacePart name part
  | none => whole

/-- Sets a part of a record: a field takes the place of the one there is, any other value becomes
its value. What has been attached under the name comes first. -/
def setPart (name : String) (value : Value) (whole : Field) : Except Fault Field :=
  match whole.find? name, value with
  | none, _ => .error .missing
  | some _, .field part =>
    .ok ((whole.mapLabel (·.detach name)).replacePart name (part.asPart name whole.kindName))
  | some (.field part), value =>
    (part.assign value).map fun part =>
      if (whole.label.lookup name).isSome then whole.mapLabel (·.attach name (.field part))
      else whole.replacePart name part
  | some _, _ => .error .missing

/-- A number in the byte order that a value stands for: the big one, unless it is the member for
the little one. For other fields the byte order is of no account. -/
def inOrderOf (value : Value) : Field → Field
  | number label role format _ choices current =>
    let order := match value with
      | .member member => if member = orderMember .little then .little else .big
      | _ => .big
    number label role format order choices current
  | field => field

/-- Sets what stands under a name: a part, the value, or else what is attached under the name.
The size and the octets of a field, and the layout of a record, follow from the rest. -/
def set (name : String) (value : Value) (field : Field) : Except Fault Field :=
  if (field.part? name).isSome then field.setPart name value
  else match Attribute.ofWord? name, field with
    | some .value, field => field.assign value
    | some .size, _ | some .raw, _ | some .layout, .record .. => .error .missing
    | some .order, field => .ok ((field.inOrderOf value).mapLabel (·.attach name value))
    | _, field => .ok (field.mapLabel (·.attach name value))

/-- The field is a record of the class or of one that inherits from it. -/
def isOf (element : ClassRef) : Field → Bool
  | record _ kind .. => kind.lineage.contains element.id
  | _ => false

/-- Adds an element to an array, or to the array that is its value. -/
def append (value : Value) : Field → Except Fault Field
  | array label element current =>
    match value with
    | .field item =>
      if item.isOf element then
        match current with
        | .list items =>
          let item := item.mapLabel (·.asElement "ArrayField")
          .ok (array label element (.list (items ++ [.field item])))
        | .field (.array innerLabel innerElement innerCurrent) =>
          (append value (.array innerLabel innerElement innerCurrent)).map fun inner =>
            array label element (.field inner)
        | _ => .error .missing
      else
        .error (.wrongElement element.name)
    | _ => .error (.wrongElement element.name)
  | _ => .error .missing

/-- Takes all elements out of an array, or out of the array that is its value. -/
def clear : Field → Except Fault Field
  | array label element (.list _) => .ok (array label element (.list []))
  | array label element (.field (.array innerLabel innerElement inner)) =>
    (clear (.array innerLabel innerElement inner)).map fun inner =>
      array label element (.field inner)
  | _ => .error .missing

end Field

end ScriptedPng.Record
