import ScriptedPng.Record.Encoding
import ScriptedPng.Text.Quoted

/-!
# Fields as text

A field is shown by the name of its kind around its value, a record by its class around its parts.
Numbers are shown in hexadecimal there, and in decimal on their own.

## Main definitions

* `Field.shown` — the value of a field with the values of the fields nested in it.
* `Field.description`, `Value.description` — a field or a value as text, as it stands inside others.
* `Field.valueText`, `Value.text` — the same on its own: of a field only the value.
-/

namespace ScriptedPng.Record

/-- The value of a field, with the values of the fields nested in it. -/
inductive Shown where
  | null
  | integer (n : Int)
  | octets (octets : Octets)
  /-- A member of an enumeration. -/
  | member (name : String)
  | list (items : List Shown)
  /-- The values of the parts of a record. -/
  | parts (parts : List (String × Shown))

mutual

/-- The value of a field. -/
def Field.shown : Field → Except Fault Shown
  | .number _ _ _ _ _ value | .array _ _ value | .plain _ value => value.shown
  | .octets _ _ value => .ok (.octets value)
  | .record _ kind parts =>
    if kind.hides .value then .error .wrongType
    else do
      let entries ← (kind.byName (Field.allShown parts)).mapM fun (name, shown) =>
        return (name, ← shown)
      return .parts entries

/-- The values of several fields. -/
def Field.allShown : List Field → List (Except Fault Shown)
  | [] => []
  | field :: rest => field.shown :: Field.allShown rest

/-- A value; a field cannot be one here. -/
def Value.shown : Value → Except Fault Shown
  | .null => .ok .null
  | .integer n => .ok (.integer n)
  | .octets octets => .ok (.octets octets)
  | .member member => .ok (.member member.name)
  | .list items => (collect (Value.itemsShown items)).map .list
  | .field _ => .error .wrongType

/-- The values of the items of a list. A field stands for its value there, and a member of an
enumeration for its number. -/
def Value.itemsShown : List Value → List (Except Fault Shown)
  | [] => []
  | .field field :: rest => field.shown :: Value.itemsShown rest
  | .member member :: rest => .ok (.integer member.number) :: Value.itemsShown rest
  | _ :: rest => .error .missing :: Value.itemsShown rest

end

/-- A text under a name in pointed brackets. -/
def bracketed (name text : String) : String :=
  s!"<{name}({text})>"

/-- A number in hexadecimal. -/
def hexValue : Value → Except Fault String
  | .integer n => .ok (Text.hexInteger n)
  | _ => .error .wrongType

/-- A member of an enumeration with its number. -/
def Member.description (member : Member) : String :=
  s!"<{member.kind}.{member.name}: {member.number}>"

/-- Items between square brackets. -/
def listed (items : List String) : String :=
  "[" ++ ", ".intercalate items ++ "]"

/-- Entries under their names between braces. -/
def tabled (entries : List (String × String)) : String :=
  let texts := entries.map fun (name, text) => Text.quoted name ++ ": " ++ text
  "\x7b" ++ ", ".intercalate texts ++ "\x7d"

mutual

/-- The field as text. -/
def Field.description : Field → Except Fault String
  | .number _ role _ _ choices value => do
    let name := match role with
      | .stored => "StructField"
      | .sizeOf _ => "LengthField"
      | .checksumOf _ => "CRCField"
    let text ← if choices.isSome then Value.description value else hexValue value
    return bracketed name text
  | .octets _ _ value => .ok (bracketed "StringField" (Text.quotedOctets value))
  | .array _ _ value => do return bracketed "ArrayField" (← Value.description value)
  | .record _ kind parts => do
    let texts ← collect (kind.inOrder (Field.descriptions parts))
    let parts := kind.orderedNames.zipWith (fun name text => s!"{name}={text}") texts
    return bracketed kind.name (",".intercalate parts)
  | .plain .. => .ok "<Field>"

/-- Several fields as text. -/
def Field.descriptions : List Field → List (Except Fault String)
  | [] => []
  | field :: rest => field.description :: Field.descriptions rest

/-- A value as text. -/
def Value.description : Value → Except Fault String
  | .null => .ok "None"
  | .integer n => .ok (toString n)
  | .octets octets => .ok (Text.quotedOctets octets)
  | .member member => .ok member.description
  | .list items => do return listed (← collect (Value.descriptions items))
  | .field field => field.description

/-- Several values as text. -/
def Value.descriptions : List Value → List (Except Fault String)
  | [] => []
  | value :: rest => value.description :: Value.descriptions rest

end

mutual

/-- The value of a field as text, where it stands inside another one. -/
def Field.innerText : Field → Except Fault String
  | .number _ _ _ _ _ value | .array _ _ value | .plain _ value => value.description
  | .octets _ _ value => .ok (Text.quotedOctets value)
  | .record _ kind parts =>
    match Field.named? kind.names parts Attribute.value.word with
    | some part => part.description
    | none => do
      let entries ← (kind.byName (Field.innerTexts parts)).mapM fun (name, text) =>
        return (name, ← text)
      return tabled entries

/-- The values of several fields as text. -/
def Field.innerTexts : List Field → List (Except Fault String)
  | [] => []
  | field :: rest => field.innerText :: Field.innerTexts rest

end

mutual

/-- The value of a field as text. -/
def Field.valueText : Field → Except Fault String
  | .number _ _ _ _ _ value | .array _ _ value | .plain _ value => value.text
  | .octets _ _ value => .ok (Text.quotedOctets value)
  | .record label kind parts =>
    if kind.hides .value then
      (Field.valueTexts parts)[kind.names.idxOf Attribute.value.word]?.getD (.error .missing)
    else (Field.record label kind parts).innerText

/-- The values of several fields as text. -/
def Field.valueTexts : List Field → List (Except Fault String)
  | [] => []
  | field :: rest => field.valueText :: Field.valueTexts rest

/-- A value as text on its own: a member of an enumeration without its number, and a field by its
value. -/
def Value.text : Value → Except Fault String
  | .member member => .ok (member.kind ++ "." ++ member.name)
  | .field field => field.valueText
  | value => value.description

end

end ScriptedPng.Record
