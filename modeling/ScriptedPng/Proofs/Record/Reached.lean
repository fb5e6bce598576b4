import ScriptedPng.Png.Records
import ScriptedPng.Proofs.Record.Operations

/-!
# Records that are in use

Classes are declared, and fields are added to them; records of the classes are created, and used and
changed by operations, some of which may fail. In all records that come of this the names fit the
parts, and so the size, the octets and the layout of a record agree.

## Main definitions

* `Registry.Declared` — classes that have been declared.
* `Record.Reached` — a value that has come of any operations.

## Main statements

* `Registry.Declared.sound`, `Reached.sound` — what has been declared, or has come of operations, is
  sound.
* `Reached.laidOut` — the size, the octets and the layout of a record agree.
-/

namespace ScriptedPng.Record

/-! ## Classes -/

/-- Classes after declarations and contributions. -/
inductive Registry.Declared : Registry → Prop
  | start : Declared Png.registry
  | declare {registry after : Registry} {name : String} {bases : List String}
      {specs : List (String × FieldSpec)} (h : Declared registry)
      (hafter : registry.declare name bases specs = .ok after) : Declared after
  | contribute {registry after : Registry} {cls name : String} {spec : FieldSpec} {field : Field}
      (h : Declared registry) (hfield : registry.field spec = .ok field)
      (hafter : registry.contribute cls name field = .ok after) : Declared after

section

variable {lists : List (List String)}

theorem sound_number (role : Role) (format : IntegerFormat) (choices : Option Enumeration)
    {value : Value} (h : value.Sound lists) :
    (Field.number .fresh role format .big choices value).Sound lists :=
  Field.sound_number_iff.2 ⟨h, Registry.sound_fresh⟩

theorem sound_numberField (format : IntegerFormat) (n : Int) :
    (Png.numberField format (.integer n)).Sound lists :=
  sound_number .stored format none (Value.sound_of_inside rfl trivial)

theorem sound_memberField (choices : Enumeration) (member : Member) :
    (Png.memberField choices member).Sound lists :=
  sound_number .stored Png.byteFormat choices (Value.sound_of_inside rfl trivial)

theorem sound_octetField (length : Option Int) (octets : Octets) :
    (Field.octets .fresh length octets).Sound lists :=
  Field.sound_octets_iff.2 Registry.sound_fresh

theorem sound_headerFields (width height depth : Int) (type : ColorType) (interlace : Interlace) :
    ∀ entry ∈ Png.headerFields width height depth type interlace, entry.2.Sound lists := by
  simp [Png.headerFields, sound_numberField, sound_memberField]

theorem sound_paletteEntryFields (color : Rgb) :
    ∀ entry ∈ Png.paletteEntryFields color, entry.2.Sound lists := by
  simp [Png.paletteEntryFields, sound_numberField]

theorem sound_chromaticityFields (coordinates : List Int) :
    ∀ entry ∈ Png.chromaticityFields coordinates, entry.2.Sound lists := by
  intro entry hmem
  obtain ⟨n, -, hn⟩ := List.mem_map.1 (List.of_mem_zip hmem).2
  exact hn ▸ sound_numberField wordFormat n

theorem sound_chunkFields (type : Octets) {data : Field} (h : data.Sound lists) :
    ∀ entry ∈ Png.chunkFields type data, entry.2.Sound lists := by
  have hzero : (Value.integer 0).Sound lists := Value.sound_of_inside rfl trivial
  simp [Png.chunkFields, sound_number _ _ _ hzero, sound_octetField, h]

end

/-- A class that inherits from the root alone is sound if its fields are. -/
theorem sound_leafClass {registry : Registry} {id : Nat} {name : String}
    {fields : List (String × Field)}
    (hcls : registry.classes[id]? = some (Png.leafClass id name fields))
    (hfields : ∀ entry ∈ fields, entry.2.Sound registry.lists) :
    (Png.leafClass id name fields).Sound registry id where
  place := rfl
  found _ hmem := Registry.isSome_lookup_iff.2 ⟨id, List.mem_cons_self, _, hcls,
    isSome_lookup_iff_mem.2 hmem⟩
  declared := hfields

/-- The classes of PNG are sound. -/
theorem sound_png : Png.registry.Sound := by
  intro id cls hcls
  rcases id with _ | _ | _ | _ | _ | _ | id
  · cases hcls
    exact ⟨rfl, List.forall_mem_nil _, List.forall_mem_nil _⟩
  · cases hcls
    exact sound_leafClass rfl (List.forall_mem_singleton.2 (sound_octetField _ _))
  · cases hcls
    exact sound_leafClass rfl (sound_headerFields _ _ _ _ _)
  · cases hcls
    exact sound_leafClass rfl (sound_paletteEntryFields _)
  · cases hcls
    exact sound_leafClass rfl (sound_chromaticityFields _)
  · cases hcls
    exact sound_leafClass rfl (sound_chunkFields _ (sound_octetField _ _))
  · cases hcls

/-- What has been declared is sound. -/
theorem Registry.Declared.sound {registry : Registry} (h : registry.Declared) :
    registry.Sound := by
  induction h with
  | start => exact sound_png
  | declare _ hafter ih => exact (ih.declare hafter).2
  | contribute _ hfield hafter ih => exact (ih.contribute (ih.field _ hfield) hafter).2

/-! ## Values -/

/-- A value that has come of operations, of which some may have failed. -/
inductive Reached : Registry → Value → Prop
  | described {registry : Registry} {literal : Literal} {value : Value} (h : registry.Declared)
      (hvalue : registry.value literal = .ok value) : Reached registry value
  | created {registry : Registry} {cls : Class} {args : List (String × Value)} {field : Field}
      (h : registry.Declared) (hcls : cls ∈ registry.classes)
      (hargs : ∀ entry ∈ args, Reached registry entry.2)
      (hfield : registry.create cls args = .ok field) : Reached registry (.field field)
  | operated {registry : Registry} {field : Field} {operation : Operation}
      (h : Reached registry (.field field))
      (hgiven : ∀ value, operation.given? = some (.ok value) → Reached registry value) :
      Reached registry (.field (ended (operation.run field)).2)
  | found {registry : Registry} {whole after : Field} {path : List Step} {value : Value}
      (h : Reached registry (.field whole))
      (hvalue : (Visit.follow path >>= Visit.look) whole = .ok value after) : Reached registry value
  | declared {registry after : Registry} {name : String} {bases : List String}
      {specs : List (String × FieldSpec)} {value : Value} (h : Reached registry value)
      (hafter : registry.declare name bases specs = .ok after) : Reached after value
  | contributed {registry after : Registry} {cls name : String} {spec : FieldSpec} {field : Field}
      {value : Value} (h : Reached registry value) (hfield : registry.field spec = .ok field)
      (hafter : registry.contribute cls name field = .ok after) :
      Reached after (after.refreshValue value)

/-- What has come of operations is sound. -/
theorem Reached.sound {registry : Registry} {value : Value} (h : Reached registry value) :
    registry.Sound ∧ value.Sound registry.lists := by
  induction h with
  | described h hvalue => exact ⟨h.sound, h.sound.value _ hvalue⟩
  | created h hcls _ hfield ih =>
    obtain ⟨id, hid⟩ := List.mem_iff_getElem?.1 hcls
    exact ⟨h.sound, h.sound.create hid (fun entry hmem => (ih entry hmem).2) hfield⟩
  | @operated registry field operation _ _ ih hgiven =>
    have hrun := operation.keeps_run (fun value hvalue => (hgiven value hvalue).2) field ih.2
    exact ⟨ih.1, (hrun.mono (fun _ _ h => h.2) fun _ _ h => h.2).ended⟩
  | @found registry whole after path value _ hvalue ih =>
    have hlook : Visit.Keeps registry.lists (fun value : Value => value.Sound registry.lists)
        (Visit.follow path >>= Visit.look) :=
      .bind (Visit.keeps_follow path) fun _ hposition => Visit.keeps_look hposition
    have hfound := hlook whole ih.2
    rw [hvalue] at hfound
    exact ⟨ih.1, hfound.1⟩
  | declared _ hafter ih =>
    obtain ⟨hgrows, hsound⟩ := ih.1.declare hafter
    exact ⟨hsound, ih.2.mono hgrows.lists⟩
  | contributed _ hfield hafter ih =>
    obtain ⟨hlists, hsound⟩ := ih.1.contribute (ih.1.field _ hfield) hafter
    exact ⟨hsound, Value.Sound.refresh hsound (hlists ▸ ih.2)⟩

/-! ## Agreement -/

variable {registry : Registry} {label : Label} {kind : RecordKind} {parts : List Field}
  {octets : Octets}

/-- If the octets of a record are known, so is its size, which is how many they are, and its layout,
which tells where the octets of the parts are among them. -/
theorem Reached.laidOut (h : Reached registry (.field (.record label kind parts)))
    (hclear : (Field.record label kind parts).Clear)
    (hraw : (Field.record label kind parts).raw = .ok octets) :
    (Field.record label kind parts).size = .ok octets.length ∧
      ∃ entries, (Field.record label kind parts).layout = .ok entries ∧
        (Field.record label kind parts).LaidOut octets entries := by
  obtain ⟨hfits, -, -⟩ := Field.sound_record_iff.1 h.sound.2
  exact ⟨Field.size_of_raw hclear hraw, Field.layout_of_raw hfits hclear hraw⟩

/-- A part that is a number in an octet. -/
def octetPart (name owner : String) (held : Bool) (n : Int) : Field :=
  .number (.mk name owner held []) .stored Png.byteFormat .big none (.integer n)

/-- An entry of a palette, as a part or by itself. -/
def entryRecord (label : Label) (held : Bool) (red : Int) : Field :=
  .record label ⟨"PLTEEntry", [3, 0], ["red", "green", "blue"], [0, 1, 2]⟩
    [octetPart "red" "PLTEEntry" held red, octetPart "green" "PLTEEntry" false 0,
      octetPart "blue" "PLTEEntry" false 0]

/-- A class that declares an inherited field once more, and a record. -/
def pairClass : Class :=
  ⟨"Pair", [6, 3, 0], ["red", "green", "blue", "red", "more"],
    [("red", .octets .fresh none [7, 8]), ("more", entryRecord .fresh false 0)]⟩

/-- A record of this class. -/
def pairRecord (held : Bool) (red : Octets) : Field :=
  .record .fresh ⟨"Pair", [6, 3, 0], ["red", "green", "blue", "more"], [0, 1, 2, 0, 3]⟩
    [.octets (.mk "red" "Pair" held []) none red, octetPart "green" "Pair" false 0,
      octetPart "blue" "Pair" false 0, entryRecord (.mk "more" "Pair" true []) true 5]

/-- The class is declared, a record of it is created, and then one of its parts is set. -/
theorem reached_pairRecord : Reached ⟨6, Png.registry.classes ++ [pairClass]⟩
    (.field (pairRecord true [1, 2, 3])) := by
  have hname : "Pair".contains '\x00' = false := by simp
  have hdeclared : Png.registry.declare "Pair" ["PLTEEntry"]
      [("red", .octets none (.octets [7, 8])), ("more", .record "PLTEEntry" [])] =
        .ok ⟨6, Png.registry.classes ++ [pairClass]⟩ := by
    simp only [Registry.declare, hname, Bool.false_eq_true, if_false]
    rfl
  have hcreated : Registry.value ⟨6, Png.registry.classes ++ [pairClass]⟩
      (.record "Pair" [("more", .record "PLTEEntry" [("red", .integer 5)])]) =
        .ok (.field (pairRecord false [7, 8])) := rfl
  have hgiven : Registry.value ⟨6, Png.registry.classes ++ [pairClass]⟩ (.octets [1, 2, 3]) =
      .ok (.octets [1, 2, 3]) := rfl
  have hset : (ended ((Operation.set [.name "red"] (.ok (.octets [1, 2, 3]))).run
      (pairRecord false [7, 8]))).2 = pairRecord true [1, 2, 3] := rfl
  have hregistry := Registry.Declared.start.declare hdeclared
  rw [← hset]
  refine .operated (.described hregistry hcreated) ?_
  rintro value ⟨⟩
  exact .described hregistry hgiven

theorem clear_octetPart (name owner : String) (held : Bool) (n : Int) :
    (octetPart name owner held n).Clear :=
  Field.clear_of_inner nofun (List.forall_mem_nil _)

theorem clear_entryRecord (label : Label) (held : Bool) (red : Int) :
    (entryRecord label held red).Clear := by
  refine Field.clear_of_inner ?_ ?_
  · rintro _ _ _ ⟨⟩
    decide
  · simp [entryRecord, Field.inner, RecordKind.inOrder, clear_octetPart]

theorem clear_pairRecord (held : Bool) (red : Octets) : (pairRecord held red).Clear := by
  refine Field.clear_of_inner ?_ ?_
  · rintro _ _ _ ⟨⟩
    decide
  · have hred : (Field.octets (.mk "red" "Pair" held []) none red).Clear :=
      Field.clear_of_inner nofun (List.forall_mem_nil _)
    simp [pairRecord, Field.inner, RecordKind.inOrder, clear_octetPart, clear_entryRecord, hred]

/-- The inherited field, which is listed twice, is found at its last place. -/
theorem laidOut_pairRecord :
    Reached ⟨6, Png.registry.classes ++ [pairClass]⟩ (.field (pairRecord true [1, 2, 3])) ∧
    (pairRecord true [1, 2, 3]).Clear ∧
    (pairRecord true [1, 2, 3]).raw = .ok [1, 2, 3, 0, 0, 1, 2, 3, 5, 0, 0] ∧
    (pairRecord true [1, 2, 3]).size = .ok 11 ∧
    ∃ entries, (pairRecord true [1, 2, 3]).layout = .ok entries ∧
      (pairRecord true [1, 2, 3]).LaidOut [1, 2, 3, 0, 0, 1, 2, 3, 5, 0, 0] entries :=
  ⟨reached_pairRecord, clear_pairRecord _ _, rfl,
    reached_pairRecord.laidOut (clear_pairRecord _ _) rfl⟩

end ScriptedPng.Record
