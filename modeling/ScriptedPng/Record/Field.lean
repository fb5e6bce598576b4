import ScriptedPng.Record.Format

/-!
# Fields and records

A binary format is described by fields, which hold a value and have a form as octets. A record is a
field made of other fields, its parts, stored one after the other. Numbers may depend on other
fields of their record: they hold the size of one, or the checksum of several.

A field is a value. Its parts, its elements and what is attached to it are in it and nowhere else:
what is said of fields is said of fields in which nothing stands in two places. A field belongs to
the record or array that it is in, unless another field has been attached to it as its father.

## Main definitions

* `Record.Value` — what a field can hold.
* `Record.Label` — what is known of a field besides its value.
* `Record.Field` — the kinds of fields.
* `Record.Attribute` — what a field answers to besides the names of its parts.
* `Record.Fault` — what can go wrong with fields.
-/

namespace ScriptedPng.Record

/-- Named numbers. -/
structure Enumeration where
  name : String
  members : List (String × Int)
deriving DecidableEq, Repr

/-- A member of the enumeration `kind`. -/
structure Member where
  kind : String
  name : String
  number : Int
deriving DecidableEq, Repr

namespace Enumeration

/-- The first member with the given number. -/
def member? (enumeration : Enumeration) (number : Int) : Option Member :=
  (enumeration.members.find? (·.2 = number)).map fun (name, number) =>
    ⟨enumeration.name, name, number⟩

/-- The member with the given name; where two names share a number it is called by the first. -/
def named? (enumeration : Enumeration) (name : String) : Option Member :=
  (enumeration.members.lookup name).bind enumeration.member?

end Enumeration

/-- The byte orders as members of an enumeration. -/
def orderMember : ByteOrder → Member
  | .little => ⟨"Endianess", "LITTLE_ENDIAN", 1⟩
  | .big => ⟨"Endianess", "BIG_ENDIAN", 2⟩

/-- Where a number comes from. -/
inductive Role where
  /-- It is set from outside. -/
  | stored
  /-- It is the size of the named field of the same record. -/
  | sizeOf (name : String)
  /-- It is the CRC-32 of the named fields of the same record. -/
  | checksumOf (names : List String)
deriving DecidableEq, Repr

/-- The names of the fields that a number depends on. -/
def Role.names : Role → List String
  | stored => []
  | sizeOf name => [name]
  | checksumOf names => names

/-- What a field answers to besides the names of its parts. A part of the same name takes its
place. -/
inductive Attribute where
  /-- The name of the field in its record. -/
  | name
  /-- What the field belongs to. -/
  | father
  /-- The value that the field has to begin with. -/
  | default
  /-- The byte order. -/
  | order
  /-- The value. -/
  | value
  /-- The number of octets. -/
  | size
  /-- The octets. -/
  | raw
  /-- Where the parts of a record lie. -/
  | layout
  /-- Packing the field. -/
  | packing
  /-- Giving the field the value to begin with. -/
  | beginning
deriving DecidableEq, Repr

namespace Attribute

/-- The name of the attribute in paths. -/
def word : Attribute → String
  | name => "name"
  | father => "father"
  | default => "default"
  | order => "endianess"
  | value => "value"
  | size => "size"
  | raw => "raw"
  | layout => "layout"
  | packing => "pack"
  | beginning => "init"

/-- All attributes. -/
def all : List Attribute :=
  [name, father, default, order, value, size, raw, layout, packing, beginning]

/-- The attribute with the given name. -/
def ofWord? (word : String) : Option Attribute :=
  all.find? (·.word = word)

end Attribute

/-- A class of records as the class of array elements. -/
structure ClassRef where
  id : Nat
  name : String
deriving DecidableEq, Repr

/-- What the records of a class have in common. -/
structure RecordKind where
  name : String
  /-- The class and the classes it inherits from. -/
  lineage : List Nat
  /-- The names of the parts, each one once. -/
  names : List String
  /-- The parts in the order in which they are stored, by their places among the names. A part may
  be stored more than once. -/
  order : List Nat
deriving DecidableEq, Repr

namespace RecordKind

/-- What is given for each part, in the order in which the parts are stored. -/
def inOrder {α : Type} (kind : RecordKind) (items : List α) : List α :=
  kind.order.filterMap fun place => items[place]?

/-- The names of the parts in the order in which they are stored. -/
def orderedNames (kind : RecordKind) : List String :=
  kind.inOrder kind.names

/-- What is given for each part that is stored, once under the name of the part. -/
def byName {α : Type} (kind : RecordKind) (items : List α) : List (String × α) :=
  kind.orderedNames.eraseDups.filterMap fun name =>
    items[kind.names.idxOf name]?.map fun item => (name, item)

/-- A part takes the place of the attribute. -/
def hides (kind : RecordKind) (what : Attribute) : Bool :=
  kind.names.contains what.word

end RecordKind

mutual

/-- What a field can hold. -/
inductive Value where
  | null
  | integer (n : Int)
  | octets (octets : Octets)
  | member (member : Member)
  | list (items : List Value)
  | field (field : Field)

/-- What is known of a field besides its value. A field that is held stays as it is when the class
of its record is added to. -/
inductive Label where
  /-- The name of the field in its record, the kind of what it belongs to, whether it is held, and
  what has been attached to it under names of no account. -/
  | mk (name owner : Option String) (held : Bool) (attached : List (String × Value))

/-- A field with its value. -/
inductive Field where
  /-- An integer, or a member of an enumeration. -/
  | number (label : Label) (role : Role) (format : IntegerFormat) (order : ByteOrder)
      (choices : Option Enumeration) (value : Value)
  /-- Octets, of a fixed number or any. -/
  | octets (label : Label) (length : Option Int) (value : Octets)
  /-- Records of one class, one after the other. -/
  | array (label : Label) (element : ClassRef) (value : Value)
  /-- A record with its parts. -/
  | record (label : Label) (kind : RecordKind) (parts : List Field)
  /-- A field without a form. -/
  | plain (label : Label) (value : Value)

end

/-- What can go wrong with fields. -/
inductive Fault where
  /-- A value does not fit its format. -/
  | unencodable (misfit : Misfit)
  /-- A field has no form as octets. -/
  | formless (kind : String)
  /-- A class of records has no field of that name. -/
  | noSuchField (record name : String)
  /-- There is no such part or operation. -/
  | missing
  /-- A record cannot be set as a whole. -/
  | wholeRecord
  /-- A class of records has something of that name already. -/
  | alreadyDeclared (name record : String)
  /-- Octets are not as many as there have to be. -/
  | wrongSize (length : Int)
  /-- An array takes other records. -/
  | wrongElement (record : String)
  /-- A value is no member of the enumeration. -/
  | notMember
  /-- A number is no octet, or no count of octets. -/
  | badOctet
  /-- A name cannot be the name of a class. -/
  | badName
  /-- A value is of a wrong kind. -/
  | wrongType
  /-- A list has no such element. -/
  | badIndex
  /-- There is no class, no member or no byte order of that name. -/
  | unknownName
  /-- A count of octets is beyond all bounds. -/
  | hugeCount
deriving DecidableEq, Repr

/-- The wording of a fault, where it has one. -/
def Fault.message? : Fault → Option String
  | formless kind => some s!"method {kind}._get_raw() not implemented"
  | noSuchField record name => some s!"{record} has no field named '{name}'"
  | wholeRecord => some "the fields of a chunk must be set one by one"
  | alreadyDeclared name record => some s!"field {name} is already present in class {record}"
  | wrongSize length =>
    some s!"you are trying to set a value with the wrong size (that is {length} bytes)"
  | wrongElement record => some s!"ArrayField accepts only {record} elements"
  | _ => none

/-! ## Labels -/

namespace Label

/-- The label of a field that stands alone. -/
def fresh : Label := .mk none none false []

/-- The name of the field in its record. -/
def name : Label → Option String
  | .mk name .. => name

/-- The kind of what the field belongs to. -/
def owner : Label → Option String
  | .mk _ owner .. => owner

/-- The field stays as it is when the class of its record is added to. -/
def held : Label → Bool
  | .mk _ _ held _ => held

/-- What has been attached to the field under names of no account. -/
def attached : Label → List (String × Value)
  | .mk _ _ _ attached => attached

/-- What has been attached under the name. -/
def lookup (label : Label) (name : String) : Option Value :=
  label.attached.lookup name

/-- The label of a field that is held. -/
def hold (label : Label) : Label :=
  .mk label.name label.owner true label.attached

/-- The label with nothing attached under the name. -/
def detach (label : Label) (name : String) : Label :=
  .mk label.name label.owner label.held (label.attached.filter (·.1 ≠ name))

/-- The label with a value attached under the name, in place of the one before. -/
def attach (label : Label) (name : String) (value : Value) : Label :=
  .mk label.name label.owner label.held ((name, value) :: (label.detach name).attached)

/-- The label of a part of a record, which has the name there and belongs to the record. -/
def asPart (label : Label) (name record : String) : Label :=
  let label := (label.detach Attribute.name.word).detach Attribute.father.word
  .mk name record label.held label.attached

/-- The label of an element of an array, which belongs to the array. -/
def asElement (label : Label) (array : String) : Label :=
  let label := label.detach Attribute.father.word
  .mk label.name array label.held label.attached

/-- What has been put in the place of what the field belongs to. -/
def father? (label : Label) : Option Value :=
  label.lookup Attribute.father.word

end Label

/-! ## Fields -/

namespace Field

/-- What is known of the field besides its value. -/
def label : Field → Label
  | number label .. | octets label .. | array label .. | record label .. | plain label .. => label

/-- The field with its label changed. -/
def mapLabel (f : Label → Label) : Field → Field
  | number label role format order choices value =>
    number (f label) role format order choices value
  | octets label length value => octets (f label) length value
  | array label element value => array (f label) element value
  | record label kind parts => record (f label) kind parts
  | plain label value => plain (f label) value

/-- The field as a part of a record. -/
def asPart (name record : String) (field : Field) : Field :=
  field.mapLabel (·.asPart name record)

/-- The field, which is held from now on. -/
def hold (field : Field) : Field :=
  field.mapLabel Label.hold

/-- The name of the kind of field; for a record, of its class. -/
def kindName : Field → String
  | number _ .stored .. => "StructField"
  | number _ (.sizeOf _) .. => "LengthField"
  | number _ (.checksumOf _) .. => "CRCField"
  | octets .. => "StringField"
  | array .. => "ArrayField"
  | record _ kind .. => kind.name
  | plain .. => "Field"

/-- The byte order of the field; for others than numbers it is of no account. -/
def order : Field → ByteOrder
  | number _ _ _ order .. => order
  | _ => .big

/-- The part of that name among parts with the given names. -/
def named? (names : List String) (parts : List Field) (name : String) : Option Field :=
  parts[names.idxOf name]?

/-- The parts of a record by their names. -/
def part? : Field → String → Option Field
  | record _ kind parts, name => named? kind.names parts name
  | _, _ => none

/-- What stands under a name in a field: what has been attached under it or else a part. -/
def find? (field : Field) (name : String) : Option Value :=
  match field.label.lookup name with
  | some value => some value
  | none => (field.part? name).map Value.field

/-- A part or something attached takes the place of the attribute. -/
def hides (field : Field) (what : Attribute) : Bool :=
  (field.find? what.word).isSome

end Field

/-- The name of the kind of value; `none` for no value. -/
def Value.kindName? : Value → Option String
  | null => none
  | integer _ => "int"
  | octets _ => "bytes"
  | member m => m.kind
  | list _ => "list"
  | field f => f.kindName

end ScriptedPng.Record
