import Mathlib.Data.List.Forall2
import ScriptedPng.Proofs.Record.Steady

/-!
# Fields in fields

Packing a field packs the fields in it: the parts of a record that are stored, or what an array
holds. What packing comes to is told one level at a time, with the fields before and after it. Parts
that are packed at different places do not get in each other's way.

## Main definitions

* `Field.inner` — the fields that are packed with a field.
* `Field.Within` — the fields in a field, however deep.
* `Field.Packs` — how a field has been packed, one level of it.

## Main statements

* `Field.packs_of_packWithin` — a field is packed in one of these ways.
* `Record.packPlaces_at` — a part is packed behind the parts before it, and stays as it is then.
-/

namespace ScriptedPng.Record

/-! ## Fields in a field -/

namespace Value

/-- The field that a value is, if it is one. -/
def field? : Value → Option Field
  | .field found => some found
  | _ => none

theorem filterMap_field? (items : List Field) : (items.map .field).filterMap field? = items := by
  simp [List.filterMap_map, Function.comp_def, field?]

end Value

namespace Field

/-- The fields that are packed with a field, in the order in which they are stored. -/
def inner : Field → List Field
  | record _ kind parts => kind.inOrder parts
  | array _ _ (.list items) => items.filterMap Value.field?
  | array _ _ (.field (.array label element value)) => [array label element value]
  | _ => []

/-- The field is the whole or is packed with it. -/
inductive Within (whole : Field) : Field → Prop
  | refl : Within whole whole
  | inner {outer field : Field} : Within whole outer → field ∈ outer.inner → Within whole field

namespace Within

theorem trans {whole middle field : Field} (h : whole.Within middle) (h' : middle.Within field) :
    whole.Within field := by
  induction h' with
  | refl => exact h
  | inner _ hmem ih => exact .inner ih hmem

theorem of_mem {whole field : Field} (h : field ∈ whole.inner) : whole.Within field :=
  .inner .refl h

/-- What is in a field is the field itself, or is in one of those packed with it. -/
theorem eq_or_mem {whole field : Field} (h : whole.Within field) :
    field = whole ∨ ∃ middle ∈ whole.inner, middle.Within field := by
  induction h with
  | refl => exact .inl rfl
  | @inner outer field _ hmem ih =>
    rcases ih with rfl | ⟨middle, hmiddle, hwithin⟩
    · exact .inr ⟨field, hmem, .refl⟩
    · exact .inr ⟨middle, hmiddle, hwithin.inner hmem⟩

/-- What holds of all fields in a field holds of all fields in one of them. -/
theorem forall_of_mem {p : Field → Prop} {whole middle : Field}
    (h : ∀ field, whole.Within field → p field) (hmem : middle ∈ whole.inner) :
    ∀ field, middle.Within field → p field :=
  fun field hfield => h field ((of_mem hmem).trans hfield)

/-- What holds of a field, and of all fields in those packed with it, holds of all fields in it. -/
theorem forall_of_inner {p : Field → Prop} {whole : Field} (hwhole : p whole)
    (hinner : ∀ part ∈ whole.inner, ∀ field, part.Within field → p field) :
    ∀ field, whole.Within field → p field := by
  intro field hfield
  rcases hfield.eq_or_mem with rfl | ⟨part, hmem, hpart⟩
  · exact hwhole
  · exact hinner part hmem field hpart

end Within

/-! ## Depth -/

theorem depth_le_depths {field : Field} {fields : List Field} (h : field ∈ fields) :
    field.depth ≤ depths fields := by
  induction h with
  | head rest => exact Nat.le_max_left _ _
  | tail other _ ih => exact Nat.le_trans ih (Nat.le_max_right _ _)

theorem depth_le_valueDepths {field : Field} {items : List Value} (h : .field field ∈ items) :
    field.depth ≤ Value.depths items := by
  induction items with
  | nil => cases h
  | cons item rest ih =>
    cases h with
    | head => exact Nat.le_max_left _ _
    | tail _ h => exact Nat.le_trans (ih h) (Nat.le_max_right _ _)

theorem depth_pos (field : Field) : 0 < field.depth := by
  cases field <;> simp [depth]

/-- The fields packed with a field are nested less deep. -/
theorem depth_lt_of_mem_inner {whole field : Field} (h : field ∈ whole.inner) :
    field.depth < whole.depth := by
  unfold inner at h
  split at h
  · rw [depth]
    exact Nat.lt_succ_of_le (depth_le_depths (mem_of_mem_inOrder h))
  · obtain ⟨item, hitem, hfield⟩ := List.mem_filterMap.1 h
    cases item with
    | field found =>
      obtain rfl : found = field := Option.some.inj hfield
      rw [depth, Value.depth]
      exact Nat.lt_succ_of_le (depth_le_valueDepths hitem)
    | _ => cases hfield
  · obtain rfl := List.mem_singleton.1 h
    exact Nat.lt_succ_self _
  · cases h

/-- A bound on the depth of a field bounds the depths of those packed with it by less. -/
theorem exists_bound {field : Field} {bound : Nat} (h : field.depth ≤ bound) :
    ∃ less, bound = less + 1 ∧ ∀ part ∈ field.inner, part.depth ≤ less := by
  obtain ⟨less, rfl⟩ := Nat.exists_eq_add_one_of_ne_zero
    (Nat.ne_of_gt (Nat.lt_of_lt_of_le field.depth_pos h))
  exact ⟨less, rfl, fun part hmem =>
    Nat.le_of_lt_succ (Nat.lt_of_lt_of_le (depth_lt_of_mem_inner hmem) h)⟩

/-- What holds of a field as soon as it holds of those packed with it holds of all fields. -/
theorem inner_induction {p : Field → Prop}
    (h : ∀ field, (∀ part ∈ field.inner, p part) → p field) (field : Field) : p field := by
  induction hdepth : field.depth using Nat.strongRecOn generalizing field with
  | ind depth ih =>
    exact h field fun part hmem => ih part.depth (hdepth ▸ depth_lt_of_mem_inner hmem) part rfl


/-! ## One level of packing -/

/-- Packs an element of an array, with the values before and behind it. -/
def packElement (bound : Nat) (around : Surroundings) (label : Label) (element : ClassRef)
    (before rest : List Value) (item : Field) : Packed :=
  item.packWithin bound
    (around.within (fun item => array label element (.list (before ++ .field item :: rest))) item)

/-- What the part of a record at a place can refer to, with the parts as they are. -/
def aroundPart (around : Surroundings) (label : Label) (kind : RecordKind) (place : Nat)
    (parts : List Field) (part : Field) : Surroundings :=
  around.within (fun part => record label kind (parts.set place part)) part

/-- Packs the part of a record at a place, with the parts as they are. -/
def packPart (bound : Nat) (around : Surroundings) (label : Label) (kind : RecordKind)
    (place : Nat) (parts : List Field) (part : Field) : Packed :=
  part.packWithin bound (aroundPart around label kind place parts part)

/-- Where a number comes from; other fields are as they have been set. -/
def role : Field → Role
  | number _ role .. => role
  | _ => .stored

/-- The field is no number, and nothing is packed with it. -/
def IsPlain : Field → Prop
  | number .. | record .. | array _ _ (.list _) | array _ _ (.field (.array ..)) => False
  | _ => True

/-- How a field has been packed to octets, one level of it. -/
inductive Packs : Nat → Surroundings → Field → Octets → Field → Prop
  | number {bound : Nat} {around : Surroundings} {label : Label} {role : Role}
      {format : IntegerFormat} {order : ByteOrder} {choices : Option Enumeration} {value : Value}
      {found : Option Nat} {octets : Octets} (hrole : role.dependent around = .ok found)
      (hraw : numberRaw format order choices (found.elim value fun n => .integer n) = .ok octets) :
      Packs bound around (number label role format order choices value) octets
        (number label role format order choices (found.elim value fun n => .integer n))
  | elements {bound : Nat} {around : Surroundings} {label : Label} {element : ClassRef}
      {items after : List Value} {octets : Octets}
      (hitems : packElements (packElement bound around label element) [] items =
        (.ok octets, after)) :
      Packs (bound + 1) around (array label element (.list items)) octets
        (array label element (.list after))
  | content {bound : Nat} {around : Surroundings} {label innerLabel : Label}
      {element innerElement : ClassRef} {value : Value} {octets : Octets} {after : Field}
      (hinner : (array innerLabel innerElement value).packWithin bound {} = (.ok octets, after)) :
      Packs (bound + 1) around (array label element (.field (array innerLabel innerElement value)))
        octets (array label element (.field after))
  | parts {bound : Nat} {around : Surroundings} {label : Label} {kind : RecordKind}
      {parts after : List Field} {octets : Octets}
      (hparts : packPlaces (packPart bound around label kind) kind.order parts =
        (.ok octets, after)) :
      Packs (bound + 1) around (record label kind parts) octets (record label kind after)
  | plain {bound : Nat} {around : Surroundings} {field : Field} {octets : Octets}
      (hfield : field.IsPlain ∨ bound = 0) (hrole : field.role = .stored)
      (hraw : field.raw = .ok octets) :
      Packs bound around field octets field

theorem packWithin_number {label : Label} {role : Role} {format : IntegerFormat}
    {order : ByteOrder} {choices : Option Enumeration} {value : Value}
    (hhides : (number label role format order choices value).hides .packing = false)
    {around : Surroundings} {found : Option Nat} (hrole : role.dependent around = .ok found)
    (bound : Nat) :
    (number label role format order choices value).packWithin bound around =
      (numberRaw format order choices (found.elim value fun n => .integer n),
        number label role format order choices (found.elim value fun n => .integer n)) := by
  cases found <;> simp [packWithin, hhides, hrole]

theorem packWithin_array {label : Label} {element : ClassRef} {items : List Value}
    (hhides : (array label element (.list items)).hides .packing = false) (bound : Nat)
    (around : Surroundings) :
    (array label element (.list items)).packWithin (bound + 1) around =
      ((packElements (packElement bound around label element) [] items).1, array label element
        (.list (packElements (packElement bound around label element) [] items).2)) := by
  simp only [packWithin, hhides, Bool.false_eq_true, if_false]
  rfl

theorem packWithin_content {label innerLabel : Label} {element innerElement : ClassRef}
    {value : Value}
    (hhides : (array label element
      (.field (array innerLabel innerElement value))).hides .packing = false) (bound : Nat)
    (around : Surroundings) :
    (array label element (.field (array innerLabel innerElement value))).packWithin
        (bound + 1) around =
      (((array innerLabel innerElement value).packWithin bound {}).1, array label element
        (.field ((array innerLabel innerElement value).packWithin bound {}).2)) := by
  simp only [packWithin, hhides, Bool.false_eq_true, if_false]

theorem packWithin_record {label : Label} {kind : RecordKind} {parts : List Field}
    (hhides : (record label kind parts).hides .packing = false) (bound : Nat)
    (around : Surroundings) :
    (record label kind parts).packWithin (bound + 1) around =
      ((packPlaces (packPart bound around label kind) kind.order parts).1,
        record label kind (packPlaces (packPart bound around label kind) kind.order parts).2) := by
  simp only [packWithin, hhides, Bool.false_eq_true, if_false]
  rfl

/-- A field without parts or elements is packed as it stands. -/
theorem packWithin_of_isPlain {field : Field} (h : field.IsPlain)
    (hhides : field.hides .packing = false) (bound : Nat) (around : Surroundings) :
    field.packWithin bound around = (field.raw, field) := by
  unfold packWithin
  simp only [hhides, Bool.false_eq_true, if_false]
  split
  · exact h.elim
  · exact h.elim
  · exact h.elim
  · exact h.elim
  · rfl

theorem packs_of_packWithin {bound : Nat} {around : Surroundings} {field after : Field}
    {octets : Octets} (h : field.packWithin bound around = (.ok octets, after)) :
    field.hides .packing = false ∧ field.Packs bound around octets after := by
  unfold packWithin at h
  split at h
  · cases h
  · rename_i hhides
    refine ⟨by simpa using hhides, ?_⟩
    split at h
    · split at h
      · cases h
      · rename_i hrole
        obtain ⟨hraw, rfl⟩ := Prod.mk.inj h
        exact .number hrole hraw
      · rename_i n hrole
        obtain ⟨hraw, rfl⟩ := Prod.mk.inj h
        exact .number hrole hraw
    · obtain ⟨hpacked, rfl⟩ := Prod.mk.inj h
      exact .elements (Prod.ext hpacked rfl)
    · obtain ⟨hpacked, rfl⟩ := Prod.mk.inj h
      exact .content (Prod.ext hpacked rfl)
    · obtain ⟨hpacked, rfl⟩ := Prod.mk.inj h
      exact .parts (Prod.ext hpacked rfl)
    · rename_i hnumber helements hcontent hparts
      obtain ⟨hraw, rfl⟩ := Prod.mk.inj h
      have hrole : field.role = .stored := by
        unfold role
        split
        · exact (hnumber _ _ _ _ _ _ rfl).elim
        · rfl
      refine .plain ?_ hrole hraw
      cases bound with
      | zero => exact .inr rfl
      | succ bound =>
        left
        unfold IsPlain
        split
        · exact hnumber _ _ _ _ _ _ rfl
        · exact hparts _ _ _ _ rfl rfl
        · exact helements _ _ _ _ rfl rfl
        · exact hcontent _ _ _ _ _ _ rfl rfl
        · trivial
/-- What a number that has been packed depends on is there. -/
theorem exists_dependent {bound : Nat} {around : Surroundings} {label : Label} {role : Role}
    {format : IntegerFormat} {order : ByteOrder} {choices : Option Enumeration} {value : Value}
    {octets : Octets} {after : Field}
    (h : (number label role format order choices value).packWithin bound around =
      (.ok octets, after)) : ∃ found, role.dependent around = .ok found := by
  obtain ⟨hhides, -⟩ := packs_of_packWithin h
  cases hrole : role.dependent around with
  | error fault => simp [packWithin, hhides, hrole] at h
  | ok found => exact ⟨found, rfl⟩

theorem role_of_packWithin {bound : Nat} {around : Surroundings} {field after : Field}
    {octets : Octets} (h : field.packWithin bound around = (.ok octets, after)) :
    after.role = field.role := by
  cases (packs_of_packWithin h).2 <;> rfl

/-- What a record hides depends on how many parts it has, and not on the parts. -/
theorem hides_record_eq {label : Label} {kind : RecordKind} {parts others : List Field}
    (hlength : parts.length = others.length) (what : Attribute) :
    (record label kind parts).hides what = (record label kind others).hides what := by
  simp only [hides, find?, Field.label, part?, named?]
  cases label.lookup what.word with
  | some value => rfl
  | none =>
    rw [Bool.eq_iff_iff]
    simp [hlength]

/-- An array that has been packed is an array of the same kind. -/
theorem exists_of_packWithin_array {bound : Nat} {around : Surroundings} {label : Label}
    {element : ClassRef} {value : Value} {octets : Octets} {after : Field}
    (h : (array label element value).packWithin bound around = (.ok octets, after)) :
    ∃ packed, after = array label element packed := by
  cases (packs_of_packWithin h).2 with
  | elements => exact ⟨_, rfl⟩
  | content => exact ⟨_, rfl⟩
  | plain => exact ⟨_, rfl⟩

end Field

/-! ## Sequences that have been packed -/

/-- A field with the octets that it has been packed to, and the field as it is then. -/
structure PackedField where
  given : Field
  octets : Octets
  after : Field

section Sequences

variable {pack : List Value → List Value → Field → Packed}

/-- The first value of a sequence that has been packed is a field, which has been packed. -/
theorem packElements_cons_eq_ok {before rest after : List Value} {value : Value} {octets : Octets}
    (h : packElements pack before (value :: rest) = (.ok octets, after)) :
    ∃ item piece packed more, value = .field item ∧
      pack before rest item = (.ok piece, packed) ∧
      packElements pack (before ++ [.field packed]) rest = (.ok more, after) ∧
      octets = piece ++ more := by
  cases value with
  | field item =>
    rw [packElements] at h
    split at h
    · cases h
    · rename_i piece packed hpack
      obtain ⟨hmore, rfl⟩ := Prod.mk.inj h
      cases hrest : (packElements pack (before ++ [.field packed]) rest).1 with
      | error fault => simp [hrest, Except.map] at hmore
      | ok more =>
        have hoctets : piece ++ more = octets := by simpa [hrest, Except.map] using hmore
        exact ⟨item, piece, packed, more, rfl, hpack, Prod.ext hrest rfl, hoctets.symm⟩
  | _ => cases h

/-- Every value of a sequence that has been packed is a field, which has been packed to its piece of
the octets. -/
theorem exists_of_packElements {items before after : List Value} {octets : Octets}
    (h : packElements pack before items = (.ok octets, after)) :
    ∃ entries : List PackedField,
      items = (entries.map PackedField.given).map .field ∧
      after = before ++ (entries.map PackedField.after).map .field ∧
      octets = (entries.map PackedField.octets).flatten ∧
      ∀ entry ∈ entries, ∃ before rest,
        pack before rest entry.given = (.ok entry.octets, entry.after) := by
  induction items generalizing before octets with
  | nil =>
    cases h
    exact ⟨[], by simp⟩
  | cons value rest ih =>
    obtain ⟨item, piece, packed, more, rfl, hpack, hrest, rfl⟩ := packElements_cons_eq_ok h
    obtain ⟨entries, rfl, rfl, rfl, hentries⟩ := ih hrest
    refine ⟨⟨item, piece, packed⟩ :: entries, rfl, by simp, rfl, ?_⟩
    exact List.forall_mem_cons.2 ⟨⟨before, _, hpack⟩, hentries⟩

end Sequences

section Places

variable {pack : Nat → List Field → Field → Packed}

/-- Packing at one place and then at others; a place without a part is passed over. -/
theorem packPlaces_cons_eq_ok {place : Nat} {rest : List Nat} {parts after : List Field}
    {octets : Octets} (h : packPlaces pack (place :: rest) parts = (.ok octets, after)) :
    parts[place]? = none ∧ packPlaces pack rest parts = (.ok octets, after) ∨
      ∃ part piece packed more, parts[place]? = some part ∧
        pack place parts part = (.ok piece, packed) ∧
        packPlaces pack rest (parts.set place packed) = (.ok more, after) ∧
        octets = piece ++ more := by
  rw [packPlaces] at h
  split at h
  · rename_i hnone
    exact .inl ⟨hnone, h⟩
  · rename_i part hpart
    split at h
    · cases h
    · rename_i piece packed hpack
      obtain ⟨hmore, rfl⟩ := Prod.mk.inj h
      cases hrest : (packPlaces pack rest (parts.set place packed)).1 with
      | error fault => simp [hrest, Except.map] at hmore
      | ok more =>
        have hoctets : piece ++ more = octets := by simpa [hrest, Except.map] using hmore
        exact .inr ⟨part, piece, packed, more, hpart, hpack, Prod.ext hrest rfl, hoctets.symm⟩

theorem packPlaces_cons_of_some {place : Nat} {rest : List Nat} {parts after : List Field}
    {part : Field} {octets : Octets} (hpart : parts[place]? = some part)
    (h : packPlaces pack (place :: rest) parts = (.ok octets, after)) :
    ∃ piece packed more, pack place parts part = (.ok piece, packed) ∧
      packPlaces pack rest (parts.set place packed) = (.ok more, after) ∧
      octets = piece ++ more := by
  obtain ⟨hnone, -⟩ | ⟨found, piece, packed, more, hfound, hpack, hrest, hoctets⟩ :=
    packPlaces_cons_eq_ok h
  · simp [hnone] at hpart
  · obtain rfl : found = part := Option.some.inj (hfound.symm.trans hpart)
    exact ⟨piece, packed, more, hpack, hrest, hoctets⟩

/-- Packing at a place changes nothing at others before it goes on. -/
theorem packPlaces_step {place : Nat} {rest : List Nat} {parts after : List Field}
    {octets : Octets} (h : packPlaces pack (place :: rest) parts = (.ok octets, after)) :
    ∃ next more, packPlaces pack rest next = (.ok more, after) ∧
      ∀ other, other ≠ place → next[other]? = parts[other]? := by
  obtain ⟨-, h⟩ | ⟨part, piece, packed, more, -, -, h, -⟩ := packPlaces_cons_eq_ok h
  · exact ⟨parts, octets, h, fun _ _ => rfl⟩
  · exact ⟨_, more, h, fun other hne => List.getElem?_set_ne (Ne.symm hne)⟩

/-- Packing leaves the parts at other places as they are. -/
theorem packPlaces_frame {places : List Nat} {parts after : List Field} {octets : Octets}
    (h : packPlaces pack places parts = (.ok octets, after)) {place : Nat}
    (hplace : place ∉ places) : after[place]? = parts[place]? := by
  induction places generalizing parts octets with
  | nil =>
    cases h
    rfl
  | cons first rest ih =>
    rw [List.mem_cons, not_or] at hplace
    obtain ⟨next, more, hrest, hnext⟩ := packPlaces_step h
    rw [ih hrest hplace.2, hnext place hplace.1]

theorem length_of_packPlaces {places : List Nat} {parts after : List Field} {octets : Octets}
    (h : packPlaces pack places parts = (.ok octets, after)) : after.length = parts.length := by
  induction places generalizing parts octets with
  | nil =>
    cases h
    rfl
  | cons first rest ih =>
    obtain ⟨-, hrest⟩ | ⟨_, _, _, _, -, -, hrest, -⟩ := packPlaces_cons_eq_ok h
    · exact ih hrest
    · rw [ih hrest, List.length_set]

/-- A part is packed among the parts as they are then: those stored before it as they stay, and the
others as they have been. -/
theorem packPlaces_at {front back : List Nat} {place : Nat} {parts after : List Field}
    {octets : Octets} (hnodup : (front ++ place :: back).Nodup)
    (h : packPlaces pack (front ++ place :: back) parts = (.ok octets, after)) {part : Field}
    (hpart : parts[place]? = some part) :
    ∃ seen piece packed, pack place seen part = (.ok piece, packed) ∧
      seen[place]? = some part ∧ after[place]? = some packed ∧
      (∀ other ∈ front, seen[other]? = after[other]?) ∧
      ∀ other, other ∉ front → seen[other]? = parts[other]? := by
  induction front generalizing parts octets with
  | nil =>
    obtain ⟨piece, packed, more, hpack, hrest, -⟩ := packPlaces_cons_of_some hpart h
    have hplace : place ∉ back := (List.nodup_cons.1 hnodup).1
    have hlt : place < parts.length := (List.getElem?_eq_some_iff.1 hpart).1
    refine ⟨parts, piece, packed, hpack, hpart, ?_, by simp, fun _ _ => rfl⟩
    rw [packPlaces_frame hrest hplace, List.getElem?_set_self hlt]
  | cons first front ih =>
    obtain ⟨hfirst, hnodup⟩ := List.nodup_cons.1 hnodup
    have hfirst' : first ∉ front ∧ first ≠ place ∧ first ∉ back := by simpa using hfirst
    obtain ⟨next, more, hrest, hnext⟩ := packPlaces_step h
    obtain ⟨seen, piece, packed, hpack, hseen, hafter, hfront, hothers⟩ :=
      ih hnodup hrest ((hnext place (Ne.symm hfirst'.2.1)).trans hpart)
    refine ⟨seen, piece, packed, hpack, hseen, hafter, ?_, ?_⟩
    · -- The first part is not packed again, neither before the one at the place nor behind it.
      refine List.forall_mem_cons.2 ⟨?_, hfront⟩
      rw [hothers first hfirst'.1, packPlaces_frame hrest hfirst]
    · intro other hother
      rw [List.mem_cons, not_or] at hother
      rw [hothers other hother.2, hnext other hother.1]

/-- What has been packed at places that are listed once makes up the octets, piece by piece. -/
theorem packPlaces_pieces {places : List Nat} {parts after : List Field} {octets : Octets}
    (hnodup : places.Nodup) (h : packPlaces pack places parts = (.ok octets, after))
    {p : Field → Octets → Prop}
    (hpack : ∀ place ∈ places, ∀ seen part piece packed, parts[place]? = some part →
      pack place seen part = (.ok piece, packed) → p packed piece) :
    ∃ pieces, octets = pieces.flatten ∧
      List.Forall₂ p (places.filterMap fun place => after[place]?) pieces := by
  induction places generalizing parts octets with
  | nil =>
    cases h
    exact ⟨[], rfl, .nil⟩
  | cons place rest ih =>
    obtain ⟨hplace, hnodup⟩ := List.nodup_cons.1 hnodup
    obtain ⟨hnone, hrest⟩ | ⟨part, piece, packed, more, hpart, hpacked, hrest, rfl⟩ :=
      packPlaces_cons_eq_ok h
    · obtain ⟨pieces, rfl, hpieces⟩ := ih hnodup hrest fun other hother =>
        hpack other (List.mem_cons_of_mem _ hother)
      have hafter := (packPlaces_frame hrest hplace).trans hnone
      exact ⟨pieces, rfl, by rwa [List.filterMap_cons_none hafter]⟩
    · obtain ⟨pieces, rfl, hpieces⟩ := ih hnodup hrest fun other hother seen found piece packed
          hfound => hpack other (List.mem_cons_of_mem _ hother) seen found piece packed <| by
        rwa [List.getElem?_set_ne (by rintro rfl; exact hplace hother)] at hfound
      have hlt : place < parts.length := (List.getElem?_eq_some_iff.1 hpart).1
      have hafter := (packPlaces_frame hrest hplace).trans (List.getElem?_set_self hlt)
      refine ⟨piece :: pieces, rfl, ?_⟩
      rw [List.filterMap_cons_some hafter]
      exact .cons (hpack place List.mem_cons_self parts part piece packed hpart hpacked) hpieces

end Places
end ScriptedPng.Record
