import ScriptedPng.Record.Packing

/-!
# Steady fields

Numbers that are set from outside, octets, and the arrays and records of such fields depend on
nothing else. Packing leaves such a field as it is and gives its octets as they stand. It has a size
in any case, and the only thing that can be wrong with it is a value that does not fit its format.

## Main definitions

* `Field.Steady` — the field depends on nothing else.

## Main statements

* `Field.Steady.packWithin_eq` — packing a steady field gives its octets as they stand.
* `Field.Steady.size_of_raw` — the size of a steady field is the number of its octets.
* `Field.Steady.fault_of_raw` — a steady field without octets has a value that does not fit.
-/

namespace ScriptedPng.Record

/-! ## Sequences of parts -/

@[simp] theorem collect_nil {α : Type} : collect ([] : List (Except Fault α)) = .ok [] := rfl

@[simp] theorem collect_ok_cons {α : Type} (item : α) (items : List (Except Fault α)) :
    collect (.ok item :: items) = (collect items).map (item :: ·) := by
  simp only [collect, List.mapM_cons, id_eq, bind, Except.bind, pure, Except.pure]
  cases items.mapM id <;> rfl

@[simp] theorem collect_error_cons {α : Type} (fault : Fault) (items : List (Except Fault α)) :
    collect (.error fault :: items) = .error fault := by
  simp [collect, bind, Except.bind]

theorem mem_of_collect_eq_error {α : Type} {items : List (Except Fault α)} {fault : Fault}
    (h : collect items = .error fault) : .error fault ∈ items := by
  induction items with
  | nil => cases h
  | cons item rest ih =>
    cases item with
    | error found =>
      rw [collect_error_cons] at h
      cases h
      exact List.mem_cons_self
    | ok value =>
      rw [collect_ok_cons] at h
      cases hrest : collect rest with
      | error found =>
        rw [hrest] at h
        cases h
        exact List.mem_cons_of_mem _ (ih hrest)
      | ok values =>
        rw [hrest] at h
        cases h

/-- Several fields have as many octets as their sizes say, if each one has. -/
theorem total_of_collect {fields : List Field} {pieces : List Octets}
    (hsize : ∀ field ∈ fields, ∀ octets, field.raw = .ok octets → field.size = .ok octets.length)
    (hraws : collect (fields.map Field.raw) = .ok pieces) :
    (collect (fields.map Field.size)).map total = .ok pieces.flatten.length := by
  induction fields generalizing pieces with
  | nil =>
    cases hraws
    rfl
  | cons field rest ih =>
    rw [List.map_cons] at hraws
    cases hraw : field.raw with
    | error => simp [hraw] at hraws
    | ok octets =>
      rw [hraw, collect_ok_cons] at hraws
      cases hrest : collect (rest.map Field.raw) with
      | error => simp [hrest, Except.map] at hraws
      | ok more =>
        obtain rfl : octets :: more = pieces := by simpa [hrest, Except.map] using hraws
        have htotal := ih (fun field hmem => hsize field (List.mem_cons_of_mem _ hmem)) hrest
        rw [List.map_cons, hsize field List.mem_cons_self octets hraw, collect_ok_cons]
        cases hsizes : collect (rest.map Field.size) with
        | error => simp [hsizes, Except.map] at htotal
        | ok sizes =>
          have htotal : total sizes = more.flatten.length := by
            simpa [hsizes, Except.map] using htotal
          rw [List.flatten_cons, List.length_append, ← htotal]
          rfl

theorem inOrder_map {α β : Type} (kind : RecordKind) (f : α → β) (items : List α) :
    kind.inOrder (items.map f) = (kind.inOrder items).map f := by
  simp [RecordKind.inOrder, List.map_filterMap]

theorem mem_of_mem_inOrder {α : Type} {kind : RecordKind} {items : List α} {item : α}
    (h : item ∈ kind.inOrder items) : item ∈ items := by
  obtain ⟨place, -, hplace⟩ := List.mem_filterMap.1 h
  exact List.mem_of_getElem? hplace

@[simp] theorem raws_eq (parts : List Field) : Field.raws parts = parts.map Field.raw := by
  induction parts with
  | nil => rfl
  | cons part rest ih => simp [Field.raws, ih]

@[simp] theorem sizes_eq (parts : List Field) : Field.sizes parts = parts.map Field.size := by
  induction parts with
  | nil => rfl
  | cons part rest ih => simp [Field.sizes, ih]

@[simp] theorem valueRaws_map_field (items : List Field) :
    Value.raws (items.map .field) = items.map Field.raw := by
  induction items with
  | nil => rfl
  | cons item rest ih => simp [Value.raws, ih]

theorem set_eq_self {α : Type} {items : List α} {place : Nat} {item : α}
    (h : items[place]? = some item) : items.set place item = items := by
  obtain ⟨hlt, rfl⟩ := List.getElem?_eq_some_iff.1 h
  exact List.set_getElem_self hlt

/-- Items that are packed as they stand. -/
theorem packElements_eq (pack : List Value → List Value → Field → Packed) {items : List Field}
    (hpack : ∀ before rest, ∀ item ∈ items, pack before rest item = (item.raw, item))
    (before : List Value) :
    packElements pack before (items.map .field) =
      ((collect (items.map Field.raw)).map List.flatten, before ++ items.map .field) := by
  induction items generalizing before with
  | nil => simp [packElements, Except.map]
  | cons item rest ih =>
    have hrest := ih fun before after item hmem => hpack before after item (.tail _ hmem)
    simp only [List.map_cons, packElements, hpack _ _ item List.mem_cons_self]
    cases item.raw with
    | error fault => simp [Except.map]
    | ok octets =>
      rw [collect_ok_cons]
      simp only [hrest, List.append_assoc, List.singleton_append, Prod.mk.injEq, and_true]
      cases collect (rest.map Field.raw) <;> simp [Except.map]

/-- Parts that are packed as they stand. -/
theorem packPlaces_eq (pack : Nat → List Field → Field → Packed) {parts : List Field}
    {places : List Nat} (hpack : ∀ place ∈ places, ∀ part, parts[place]? = some part →
      pack place parts part = (part.raw, part)) :
    packPlaces pack places parts =
      ((collect ((places.filterMap fun place => parts[place]?).map Field.raw)).map List.flatten,
        parts) := by
  induction places with
  | nil => simp [packPlaces, Except.map]
  | cons place rest ih =>
    have hrest := ih fun other hmem => hpack other (List.mem_cons_of_mem _ hmem)
    cases hpart : parts[place]? with
    | none => simp [packPlaces, hpart, hrest]
    | some part =>
      simp only [packPlaces, hpart, hpack place List.mem_cons_self part hpart,
        List.filterMap_cons_some hpart, List.map_cons]
      cases part.raw with
      | error fault => simp [set_eq_self hpart, Except.map]
      | ok octets =>
        rw [collect_ok_cons]
        simp only [set_eq_self hpart, hrest, Prod.mk.injEq, and_true]
        cases collect ((rest.filterMap fun place => parts[place]?).map Field.raw) <;>
          simp [Except.map]

/-! ## Steady fields -/

/-- A part belongs to its record, whatever has been put in its place before. -/
theorem Label.attached_asPart (label : Label) (name record : String) :
    (label.asPart name record).attached =
      (label.attached.filter (·.1 ≠ Attribute.name.word)).filter
        (·.1 ≠ Attribute.father.word) := rfl

namespace Field

/-- The field depends on nothing but its own value. -/
inductive Steady : Field → Prop where
  | number {label : Label} {format : IntegerFormat} {order : ByteOrder}
      {choices : Option Enumeration} {value : Value} (hlabel : label.attached = []) :
      Steady (.number label .stored format order choices value)
  | octets {label : Label} {length : Option Int} {value : Octets} (hlabel : label.attached = []) :
      Steady (.octets label length value)
  | array {label : Label} {element : ClassRef} {items : List Field} (hlabel : label.attached = [])
      (hitems : ∀ item ∈ items, Steady item) :
      Steady (.array label element (.list (items.map .field)))
  | record {label : Label} {kind : RecordKind} {parts : List Field} (hlabel : label.attached = [])
      (hlength : parts.length = kind.names.length)
      (hfree : ∀ what ∈ Attribute.all, what.word ∉ kind.names)
      (hparts : ∀ part ∈ parts, Steady part) :
      Steady (.record label kind parts)

namespace Steady

theorem mapLabel {field : Field} {f : Label → Label} (h : field.Steady)
    (hf : ∀ label, label.attached = [] → (f label).attached = []) :
    (field.mapLabel f).Steady := by
  cases h with
  | number hlabel => exact .number (hf _ hlabel)
  | octets hlabel => exact .octets (hf _ hlabel)
  | array hlabel hitems => exact .array (hf _ hlabel) hitems
  | record hlabel hlength hfree hparts => exact .record (hf _ hlabel) hlength hfree hparts

theorem asPart {field : Field} (name record : String) (h : field.Steady) :
    (field.asPart name record).Steady :=
  h.mapLabel fun label hlabel => by rw [Label.attached_asPart, hlabel]; rfl

theorem hold {field : Field} (h : field.Steady) : field.hold.Steady :=
  h.mapLabel fun _ hlabel => hlabel

theorem hides_eq {field : Field} (h : field.Steady) (what : Attribute) :
    field.hides what = false := by
  have hall : what ∈ Attribute.all := by cases what <;> decide
  cases h with
  | record hlabel hlength hfree _ =>
    have hword := List.idxOf_eq_length (hfree what hall)
    simp [hides, find?, Label.lookup, label, hlabel, part?, named?, hword, hlength]
  | _ hlabel => simp [hides, find?, Label.lookup, label, hlabel, part?]

theorem kind_hides_eq {kind : RecordKind} (hfree : ∀ what ∈ Attribute.all, what.word ∉ kind.names)
    {what : Attribute} (hall : what ∈ Attribute.all) : kind.hides what = false := by
  simpa [RecordKind.hides] using hfree what hall

theorem raw_record {label : Label} {kind : RecordKind} {parts : List Field}
    (hfree : ∀ what ∈ Attribute.all, what.word ∉ kind.names) :
    (Field.record label kind parts).raw =
      (collect ((kind.inOrder parts).map Field.raw)).map List.flatten := by
  have hhides : kind.hides .raw = false := kind_hides_eq hfree (by decide)
  simp [raw, hhides, inOrder_map]

/-- Packing gives the octets as they stand. -/
theorem packWithin_eq {field : Field} (h : field.Steady) (bound : Nat) (around : Surroundings) :
    field.packWithin bound around = (field.raw, field) := by
  have hhides := h.hides_eq .packing
  induction h generalizing bound around with
  | number => simp [packWithin, hhides, Role.dependent, raw]
  | octets =>
    unfold packWithin
    simp [hhides]
  | @array label element items hlabel hitems ih =>
    cases bound with
    | zero =>
      unfold packWithin
      simp [hhides]
    | succ bound =>
      have hpack := packElements_eq
        (fun before rest item => item.packWithin bound (around.within
          (fun item => .array label element (.list (before ++ .field item :: rest))) item))
        (fun before rest item hmem => ih item hmem _ _ ((hitems item hmem).hides_eq _)) []
      simp [packWithin, hhides, hpack, raw, Value.rawElements]
  | @record label kind parts hlabel hlength hfree hparts ih =>
    cases bound with
    | zero =>
      unfold packWithin
      simp [hhides]
    | succ bound =>
      have hpart : ∀ place ∈ kind.order, ∀ part, parts[place]? = some part →
          part.packWithin bound (around.within
            (fun part => .record label kind (parts.set place part)) part) = (part.raw, part) :=
        fun place _ part hpart =>
          have hmem := List.mem_of_getElem? hpart
          ih part hmem _ _ ((hparts part hmem).hides_eq _)
      have hpack := packPlaces_eq
        (fun place parts part => part.packWithin bound (around.within
          (fun part => .record label kind (parts.set place part)) part)) hpart
      simp [packWithin, hhides, hpack, raw_record hfree, RecordKind.inOrder]

/-- The octets of a number are those of the integer that is found, if any. -/
theorem numberRaw_eq (format : IntegerFormat) (order : ByteOrder) (choices : Option Enumeration)
    (value : Value) : ∃ number? : Option Int, numberRaw format order choices value =
      match number?.bind (format.encode? order) with
      | some found => .ok found
      | none => .error (.unencodable ⟨format, order, number?⟩) :=
  ⟨_, rfl⟩

/-- The size is the number of octets. -/
theorem size_of_raw {field : Field} (h : field.Steady) {octets : Octets}
    (hraw : field.raw = .ok octets) : field.size = .ok octets.length := by
  induction h generalizing octets with
  | @number label format order choices value hlabel =>
    obtain ⟨number?, hnumber⟩ := numberRaw_eq format order choices value
    rw [raw, hnumber] at hraw
    split at hraw
    · rename_i found hfound
      cases hraw
      obtain ⟨n, -, hn⟩ := Option.bind_eq_some_iff.1 hfound
      simp [size, IntegerFormat.length_encode? hn]
    · cases hraw
  | octets =>
    cases hraw
    rfl
  | array => simp_all [raw, size, Except.map]
  | @record label kind parts hlabel hlength hfree hparts ih =>
    have hhides : kind.hides .size = false := kind_hides_eq hfree (by decide)
    rw [raw_record hfree] at hraw
    simp only [size, hhides, Bool.false_eq_true, if_false, sizes_eq, inOrder_map]
    cases hcollect : collect ((kind.inOrder parts).map Field.raw) with
    | error => simp [hcollect, Except.map] at hraw
    | ok pieces =>
      obtain rfl : pieces.flatten = octets := by simpa [hcollect, Except.map] using hraw
      exact total_of_collect (fun part hmem octets => ih part (mem_of_mem_inOrder hmem)) hcollect

/-- Only a value that does not fit keeps fields from having octets if that is so for each. -/
theorem fault_of_collect {fields : List Field} {fault : Fault}
    (heach : ∀ field ∈ fields, ∀ fault, field.raw = .error fault →
      ∃ misfit, fault = .unencodable misfit)
    (h : (collect (fields.map Field.raw)).map List.flatten = .error fault) :
    ∃ misfit, fault = .unencodable misfit := by
  cases hcollect : collect (fields.map Field.raw) with
  | ok => simp [hcollect, Except.map] at h
  | error found =>
    obtain rfl : found = fault := by simpa [hcollect, Except.map] using h
    obtain ⟨field, hmem, hfield⟩ := List.mem_map.1 (mem_of_collect_eq_error hcollect)
    exact heach field hmem found hfield

/-- Only a value that does not fit keeps the field from having octets. -/
theorem fault_of_raw {field : Field} (h : field.Steady) {fault : Fault}
    (hraw : field.raw = .error fault) : ∃ misfit, fault = .unencodable misfit := by
  induction h generalizing fault with
  | @number label format order choices value hlabel =>
    obtain ⟨number?, hnumber⟩ := numberRaw_eq format order choices value
    rw [raw, hnumber] at hraw
    split at hraw <;> cases hraw
    exact ⟨_, rfl⟩
  | octets => cases hraw
  | @array label element items hlabel hitems ih =>
    simp only [raw, Value.rawElements, valueRaws_map_field] at hraw
    exact fault_of_collect (fun item hmem _ => ih item hmem) hraw
  | @record label kind parts hlabel hlength hfree hparts ih =>
    rw [raw_record hfree] at hraw
    exact fault_of_collect (fun part hmem _ => ih part (mem_of_mem_inOrder hmem)) hraw

end Steady

end Field

end ScriptedPng.Record
