import ScriptedPng.Checksum.Crc32
import ScriptedPng.Record.Encoding

/-!
# Packing fields

Packing a field gives its octets and brings the numbers up to date that depend on other fields. The
parts of a record are packed in order, so that a number sees the parts before it as they are packed.
What has been brought up to date before a fault stays so.

## Main definitions

* `Record.Surroundings` — what a field can refer to.
* `Role.dependent` — the number that a field should hold by its role.
* `Field.pack` — the octets of a field, and the field brought up to date.
-/

namespace ScriptedPng.Record

/-- The field of a name, as seen from a part of `whole`: another part, something attached, or what
the whole itself belongs to. -/
def Field.refer (whole : Field) (father : Option Field) (name : String) : Option Field :=
  match whole.find? name with
  | some (.field field) => some field
  | some _ => none
  | none => if name = Attribute.father.word then father else none

/-- What a field can refer to. -/
structure Surroundings where
  /-- The fields by their names. -/
  refer : String → Option Field := fun _ => none
  /-- What the field belongs to, while the field itself is as given. -/
  father : Field → Option Field := fun _ => none

namespace Surroundings

/-- A field of a name that there has to be. -/
def get (around : Surroundings) (name : String) : Except Fault Field :=
  match around.refer name with
  | some field => .ok field
  | none => .error .missing

/-- The surroundings of a field that has been made to belong to something else. -/
def elsewhere : Value → Surroundings
  | .field other => { refer := other.refer none, father := fun _ => some other }
  | _ => {}

/-- The surroundings of a field within `whole`; `rebuild` puts the field, as given, into it. A field
that belongs to nothing has none. -/
def within (around : Surroundings) (rebuild : Field → Field) (field : Field) : Surroundings :=
  match field.label.father? with
  | some other => elsewhere other
  | none =>
    if field.label.owner.isSome then
      { refer := fun name => (rebuild field).refer (around.father (rebuild field)) name
        father := fun field => some (rebuild field) }
    else {}

end Surroundings

/-- The number that a field should hold by its role, if the role says so. -/
def Role.dependent (around : Surroundings) : Role → Except Fault (Option Nat)
  | .stored => .ok none
  | .sizeOf name => do return some (← (← around.get name).size)
  | .checksumOf names => do
    let covered ← collect (names.map fun name => do (← around.get name).raw)
    return some (Checksum.crc32 covered.flatten).toNat

/-- The outcome of packing a field: its octets or a fault, and the field as it is then. -/
abbrev Packed := Except Fault Octets × Field

/-- Packs the fields of an array one after the other up to the first fault. A field is packed with
the values before and behind it. -/
def packElements (pack : List Value → List Value → Field → Packed) (before : List Value) :
    List Value → Except Fault Octets × List Value
  | [] => (.ok [], before)
  | .field field :: rest =>
    match pack before rest field with
    | (.error fault, field) => (.error fault, before ++ .field field :: rest)
    | (.ok octets, field) =>
      let (more, items) := packElements pack (before ++ [.field field]) rest
      (more.map (octets ++ ·), items)
  | value :: rest => (.error .missing, before ++ value :: rest)

/-- Packs the parts at the given places one after the other up to the first fault. A part is packed
with its place and the parts as they are. -/
def packPlaces (pack : Nat → List Field → Field → Packed) :
    List Nat → List Field → Except Fault Octets × List Field
  | [], parts => (.ok [], parts)
  | place :: rest, parts =>
    match parts[place]? with
    | none => packPlaces pack rest parts
    | some part =>
      match pack place parts part with
      | (.error fault, part) => (.error fault, parts.set place part)
      | (.ok octets, part) =>
        let (more, parts) := packPlaces pack rest (parts.set place part)
        (more.map (octets ++ ·), parts)

/-- Packs a field in which fields are nested at most `bound` deep. -/
def Field.packWithin (bound : Nat) (around : Surroundings) (field : Field) : Packed :=
  if field.hides .packing then (.error .wrongType, field)
  else match bound, field with
  | _, .number label role format order choices value =>
    match role.dependent around with
    | .error fault => (.error fault, .number label role format order choices value)
    | .ok none =>
      (numberRaw format order choices value, .number label role format order choices value)
    | .ok (some n) =>
      (numberRaw format order choices (.integer n),
        .number label role format order choices (.integer n))
  | bound + 1, .array label element (.list items) =>
    let pack (before rest : List Value) (item : Field) : Packed :=
      let rebuild item := .array label element (.list (before ++ .field item :: rest))
      item.packWithin bound (around.within rebuild item)
    let (packed, items) := packElements pack [] items
    (packed, .array label element (.list items))
  | bound + 1, .array label element (.field (.array innerLabel innerElement inner)) =>
    let (packed, inner) := (Field.array innerLabel innerElement inner).packWithin bound {}
    (packed, .array label element (.field inner))
  | bound + 1, .record label kind parts =>
    let pack (place : Nat) (parts : List Field) (part : Field) : Packed :=
      let rebuild part := .record label kind (parts.set place part)
      part.packWithin bound (around.within rebuild part)
    let (packed, parts) := packPlaces pack kind.order parts
    (packed, .record label kind parts)
  | _, field => (field.raw, field)

/-- Packs a field in its surroundings. -/
def Field.pack (around : Surroundings) (field : Field) : Packed :=
  field.packWithin field.depth around

end ScriptedPng.Record
