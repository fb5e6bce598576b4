import ScriptedPng.Record.Update

/-!
# Classes of records

A class declares fields by name and inherits the fields of other classes. The parts of its records
come in the order of the classes it inherits from, its own last. Where classes declare fields of one
name, the first class in the lineage decides; the lineage of a class is itself and then a merge of
the lineages of its bases that keeps the order of each.

## Main definitions

* `Record.Class`, `Record.Registry` — a class, and the classes declared.
* `Record.Literal`, `Record.FieldSpec` — how values and fields are described.
* `Registry.declare` — declares a class.
* `Registry.instantiate` — a record of a class as declared.
* `Registry.value`, `Registry.field` — the values and fields described.
* `Registry.contribute` — adds a field to a class later on.
-/

namespace ScriptedPng.Record

/-- A class of records. -/
structure Class where
  name : String
  /-- The class itself and the classes it inherits from. -/
  lineage : List Nat
  /-- The names of the parts of a record, in the order in which they are stored. -/
  order : List String
  /-- The fields that the class itself declares. -/
  declared : List (String × Field)

/-- What every class has already under names of its own. -/
def reservedNames : List String := ["_meta", "logger", "__module__", "__doc__"]

/-- The class has something under the name already. -/
def Class.has (cls : Class) (name : String) : Bool :=
  reservedNames.contains name || (cls.declared.lookup name).isSome

/-- The classes declared so far; a class is known by its place. The class at the first place is the
root that all others inherit from. The first ones are settled: nothing is added to them. -/
structure Registry where
  settled : Nat
  classes : List Class

/-! ## Lineages -/

/-- The first head of the lists that no list holds further on. -/
def mergeHead? (lists : List (List Nat)) : Option Nat :=
  (lists.filterMap List.head?).find? fun head => lists.all fun list => !list.tail.contains head

/-- Merges lists of at most `bound` entries in all, so that the order of each is kept. -/
def mergeWithin : Nat → List (List Nat) → Option (List Nat)
  | 0, _ => some []
  | bound + 1, lists =>
    if lists.all List.isEmpty then some []
    else do
      let head ← mergeHead? lists
      let rest ← mergeWithin bound (lists.map fun list =>
        if list.head? = some head then list.tail else list)
      return head :: rest

/-- The lists merged so that the order of each is kept, if that can be done. -/
def merge? (lists : List (List Nat)) : Option (List Nat) :=
  mergeWithin lists.flatten.length lists

namespace Registry

/-- The place of the class declared last under the name, and the class, if it is not among the first
`skipped` ones. -/
def getBehind (skipped : Nat) (registry : Registry) (name : String) : Except Fault (Nat × Class) :=
  let found := registry.classes.zipIdx.reverse.find? fun (cls, id) =>
    cls.name = name ∧ skipped ≤ id
  match found with
  | none => .error .unknownName
  | some (cls, id) => .ok (id, cls)

/-- The class declared last under the name, with its place. The root is none that can be called by
its name. -/
def get (registry : Registry) (name : String) : Except Fault (Nat × Class) :=
  registry.getBehind 1 name

/-- The class of the name as one to inherit from. The name of the root always means the root. -/
def getBase (registry : Registry) (name : String) : Except Fault (Nat × Class) :=
  match registry.classes.head? with
  | none => .error .unknownName
  | some root => if root.name = name then .ok (0, root) else registry.get name

/-- The classes of a lineage. -/
def members (registry : Registry) (lineage : List Nat) : List Class :=
  lineage.filterMap fun id => registry.classes[id]?

/-- The field of the name for records of a lineage. -/
def lookup (registry : Registry) (lineage : List Nat) (name : String) : Option Field :=
  (registry.members lineage).findSome? fun cls => cls.declared.lookup name

/-- The names of all fields of records of a class, those without a place in the order last. -/
def names (registry : Registry) (cls : Class) : List String :=
  let declared := (registry.members cls.lineage).flatMap fun cls => cls.declared.map Prod.fst
  (cls.order ++ declared).eraseDups.filter fun name =>
    (registry.lookup cls.lineage name).isSome

/-- What the records of a class have in common. -/
def kind (registry : Registry) (cls : Class) : RecordKind :=
  let names := registry.names cls
  ⟨cls.name, cls.lineage, names, cls.order.map names.idxOf⟩

/-- The parts of a record of a class as declared. -/
def parts (registry : Registry) (cls : Class) : List Field :=
  (registry.names cls).filterMap fun name =>
    (registry.lookup cls.lineage name).map (Field.asPart name cls.name)

/-- The values that some attributes are set to first of all. -/
def firstValues : List (Attribute × Value) :=
  [(.name, .null), (.father, .null), (.default, .null), (.order, .member (orderMember .big))]

/-- A record of a class with all parts as declared. Parts that take the places of attributes get the
first values of these; the first setting itself cannot be one of them. -/
def instantiate (registry : Registry) (cls : Class) : Except Fault Field := do
  let record := Field.record .fresh (registry.kind cls) (registry.parts cls)
  let taken := firstValues.filter fun (what, _) => record.hides what
  let record ← taken.foldlM (fun (record : Field) (what, value) =>
    record.setPart what.word value) record
  if record.hides .beginning then .error .wrongType else .ok record

end Registry

/-! ## Descriptions -/

mutual

/-- The description of a value. -/
inductive Literal where
  | null
  | integer (n : Int)
  | octets (octets : Octets)
  | list (items : List Literal)
  /-- A field. -/
  | field (spec : FieldSpec)
  /-- A record of the named class with some fields set. -/
  | record (cls : String) (args : List (String × Literal))

/-- The description of a field. -/
inductive FieldSpec where
  /-- A number; the default is a value, or a member of the enumeration by its name. -/
  | number (format : IntegerFormat) (order : ByteOrder) (choices : Option Enumeration)
      (default : Literal) (defaultMember : Option String)
  | octets (length : Option Int) (default : Literal)
  | array (cls : String) (default : Literal)
  | sizeOf (name : String)
  | checksumOf (names : List String) (order : ByteOrder)
  | record (cls : String) (args : List (String × Literal))
  | plain (default : Literal)

end

instance : Inhabited Literal := ⟨.null⟩

instance : Inhabited FieldSpec := ⟨.plain .null⟩

/-- The format of sizes and checksums. -/
def wordFormat : IntegerFormat := ⟨4, false⟩

namespace Registry

/-- The name that stands for the record itself while its parts are set. -/
def ownName : String := "self"

/-- A record of a class with some parts set. -/
def create (registry : Registry) (cls : Class) (args : List (String × Value)) :
    Except Fault Field := do
  if (args.lookup ownName).isSome then throw .wrongType
  args.foldlM (fun (record : Field) (name, value) =>
    if cls.order.contains name then record.setPart name value
    else .error (.noSuchField cls.name name))
    (← registry.instantiate cls)

mutual

/-- The value described. -/
def value (registry : Registry) : Literal → Except Fault Value
  | .null => .ok .null
  | .integer n => .ok (.integer n)
  | .octets octets => .ok (.octets octets)
  | .list items => (values registry items).map .list
  | .field spec => (field registry spec).map .field
  | .record name args => do
    let (_, cls) ← registry.get name
    return .field (← registry.create cls (← arguments registry args))

/-- The values described. -/
def values (registry : Registry) : List Literal → Except Fault (List Value)
  | [] => .ok []
  | item :: rest => do return (← value registry item) :: (← values registry rest)

/-- The values described, each one under its name. -/
def arguments (registry : Registry) : List (String × Literal) → Except Fault (List (String × Value))
  | [] => .ok []
  | (name, item) :: rest => do
    let item ← value registry item
    return (name, item) :: (← arguments registry rest)

/-- The field described. -/
def field (registry : Registry) : FieldSpec → Except Fault Field
  | .number format order choices default defaultMember => do
    let default ←
      match defaultMember, choices with
      | some name, some enumeration =>
        match enumeration.named? name with
        | some member => .ok (.member member)
        | none => .error .unknownName
      | _, _ => value registry default
    Field.ofNumber format order choices default
  | .octets length default => do Field.ofOctets length (← value registry default)
  | .array name default => do
    let default ← value registry default
    let (id, cls) ← registry.get name
    Field.ofArray ⟨id, cls.name⟩ default
  | .sizeOf name => .ok (.number .fresh (.sizeOf name) wordFormat .big none (.integer 0))
  | .checksumOf names order =>
    .ok (.number .fresh (.checksumOf names) wordFormat order none (.integer 0))
  | .record name args => do
    let (_, cls) ← registry.get name
    registry.create cls (← arguments registry args)
  | .plain default => do return .plain .fresh (← value registry default)

end

/-- Declares a class with bases and fields. A name given twice keeps its first place and its last
field. -/
def declare (registry : Registry) (name : String) (bases : List String)
    (specs : List (String × FieldSpec)) : Except Fault Registry := do
  let bases ← bases.mapM registry.getBase
  let declared ← specs.mapM fun (name, spec) => do return (name, ← field registry spec)
  let declared := lastEntries declared
  let ids := bases.map Prod.fst
  if name.contains '\x00' then throw .badName
  match if ids.Nodup then merge? (bases.map (·.2.lineage) ++ [ids]) else none with
  | none => throw .wrongType
  | some inherited =>
    if let some (taken, _) := declared.find? fun (name, _) => reservedNames.contains name then
      throw (.alreadyDeclared taken name)
    let order := bases.flatMap (·.2.order) ++ declared.map Prod.fst
    let id := registry.classes.length
    return { registry with
      classes := registry.classes ++ [⟨name, id :: inherited, order, declared⟩] }

/-! ## Contributions -/

mutual

/-- A field in which every record is brought up to date with its class: parts that are not held are
as the class declares them now. A part that comes to a record at the place of an attribute leaves
the value of that in front. -/
def refresh (registry : Registry) : Field → Field
  | .number label role format order choices value =>
    .number (refreshLabel registry label) role format order choices (refreshValue registry value)
  | .octets label length value => .octets (refreshLabel registry label) length value
  | .array label element value =>
    .array (refreshLabel registry label) element (refreshValue registry value)
  | .plain label value => .plain (refreshLabel registry label) (refreshValue registry value)
  | .record label kind parts =>
    let kept := refreshAll registry parts
    let label := refreshLabel registry label
    match kind.lineage.head?.bind (registry.classes[·]?) with
    | none => .record label kind kept
    | some cls =>
      let current := registry.kind cls
      let parts := (current.names.zip (registry.parts cls)).map fun (name, part) =>
        ((Field.named? kind.names kept name).filter (·.label.held)).getD part
      let added := firstValues.filter fun (what, _) => current.hides what && !kind.hides what
      let label := added.foldl (fun label (what, value) =>
        if (label.lookup what.word).isSome then label else label.attach what.word value) label
      .record label current parts

/-- The same for each of several fields. -/
def refreshAll (registry : Registry) : List Field → List Field
  | [] => []
  | field :: rest => refresh registry field :: refreshAll registry rest

/-- The same for what is attached to a field. -/
def refreshLabel (registry : Registry) : Label → Label
  | .mk name owner held attached => .mk name owner held (refreshAttached registry attached)

/-- The same for values under names. -/
def refreshAttached (registry : Registry) : List (String × Value) → List (String × Value)
  | [] => []
  | (name, value) :: rest => (name, refreshValue registry value) :: refreshAttached registry rest

/-- The same for the fields in a value. -/
def refreshValue (registry : Registry) : Value → Value
  | .list items => .list (refreshValues registry items)
  | .field field => .field (refresh registry field)
  | value => value

/-- The same for the fields in several values. -/
def refreshValues (registry : Registry) : List Value → List Value
  | [] => []
  | value :: rest => refreshValue registry value :: refreshValues registry rest

end

/-- Adds a field to a class that is declared already and not settled. It takes part in no order, but
decides what the name stands for. -/
def contribute (registry : Registry) (className name : String) (field : Field) :
    Except Fault Registry := do
  let (id, cls) ← registry.getBehind registry.settled className
  if cls.has name then throw (.alreadyDeclared name cls.name)
  let cls := { cls with declared := cls.declared ++ [(name, field)] }
  let added : Registry := { registry with classes := registry.classes.set id cls }
  return { added with classes := added.classes.map fun cls =>
    { cls with declared := cls.declared.map fun (name, field) => (name, added.refresh field) } }

end Registry

end ScriptedPng.Record
