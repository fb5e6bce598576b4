import ScriptedPng.Record.Field

/-!
# Octets, sizes and layouts of fields

## Main definitions

* `Field.raw` — the octets of a field as it stands.
* `Field.size` — how many octets it has; known for a number that has none.
* `Field.layout` — where the parts of a record lie.
* `Field.depth` — how deep fields are nested in it.
-/

namespace ScriptedPng.Record

/-- Everything that is given, unless a fault is: then the first one. -/
def collect {α : Type} (items : List (Except Fault α)) : Except Fault (List α) :=
  items.mapM id

/-- The octets of a number, or of a member of an enumeration where there are choices. -/
def numberRaw (format : IntegerFormat) (order : ByteOrder) (choices : Option Enumeration)
    (value : Value) : Except Fault Octets :=
  let number? := match value, choices with
    | .integer n, _ | .member ⟨_, _, n⟩, some _ => some n
    | _, _ => none
  match number?.bind (format.encode? order) with
  | some octets => .ok octets
  | none => .error (.unencodable ⟨format, order, number?⟩)

mutual

/-- The octets of a field as it stands. -/
def Field.raw : Field → Except Fault Octets
  | .number _ _ format order choices value => numberRaw format order choices value
  | .octets _ _ value => .ok value
  | .array _ _ value => Value.rawElements value
  | .record _ kind parts =>
    if kind.hides .raw then .error .wrongType
    else (collect (kind.inOrder (Field.raws parts))).map List.flatten
  | .plain .. => .error (.formless "Field")

/-- The octets of the value of an array, which should be a list of fields or another array. -/
def Value.rawElements : Value → Except Fault Octets
  | .list items => (collect (Value.raws items)).map List.flatten
  | .field (.array _ _ value) => Value.rawElements value
  | .octets [] => .ok []
  | .octets _ => .error .missing
  | _ => .error .wrongType

/-- The octets of each field. -/
def Field.raws : List Field → List (Except Fault Octets)
  | [] => []
  | field :: rest => field.raw :: Field.raws rest

/-- The octets of each value, which should be a field. -/
def Value.raws : List Value → List (Except Fault Octets)
  | [] => []
  | .field field :: rest => field.raw :: Value.raws rest
  | _ :: rest => .error .missing :: Value.raws rest

end

/-- The sum of sizes. -/
def total (sizes : List Nat) : Nat :=
  sizes.foldr (· + ·) 0

mutual

/-- The number of octets of a field. That of a number is the width of its format. -/
def Field.size : Field → Except Fault Nat
  | .number _ _ format .. => .ok format.width
  | .octets _ _ value => .ok value.length
  | .array _ _ value => (Value.rawElements value).map List.length
  | .record _ kind parts =>
    if kind.hides .size then .error .wrongType
    else (collect (kind.inOrder (Field.sizes parts))).map total
  | .plain .. => .error (.formless "Field")

/-- The number of octets of each field. -/
def Field.sizes : List Field → List (Except Fault Nat)
  | [] => []
  | field :: rest => field.size :: Field.sizes rest

end

/-- The offset of each size when they follow one another from `start` on. -/
def offsets (start : Nat) : List Nat → List (Nat × Nat)
  | [] => []
  | size :: rest => (start, size) :: offsets (start + size) rest

/-- The last entry of each name, in the order in which the names come first. -/
def lastEntries {α : Type} (entries : List (String × α)) : List (String × α) :=
  (entries.map Prod.fst).eraseDups.filterMap fun name =>
    (entries.reverse.lookup name).map fun entry => (name, entry)

/-- Where the parts of a record lie: offset and size for each name. A part stored twice is found
at its last place. -/
def Field.layout : Field → Except Fault (List (String × Nat × Nat))
  | .record _ kind parts =>
    if kind.hides .layout then .error .missing
    else do
      let sizes ← collect (kind.inOrder (Field.sizes parts))
      return lastEntries (kind.orderedNames.zip (offsets 0 sizes))
  | _ => .error .missing

mutual

/-- One more than the number of fields around the field nested deepest. -/
def Field.depth : Field → Nat
  | .number .. | .octets .. | .plain .. => 1
  | .array _ _ value => Value.depth value + 1
  | .record _ _ parts => Field.depths parts + 1

/-- The depth of the deepest field in a value. -/
def Value.depth : Value → Nat
  | .list items => Value.depths items
  | .field field => field.depth
  | _ => 0

/-- The depth of the deepest of the fields. -/
def Field.depths : List Field → Nat
  | [] => 0
  | field :: rest => max field.depth (Field.depths rest)

/-- The depth of the deepest field in any of the values. -/
def Value.depths : List Value → Nat
  | [] => 0
  | value :: rest => max value.depth (Value.depths rest)

end

end ScriptedPng.Record
