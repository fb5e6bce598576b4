import Mathlib.Algebra.Order.BigOperators.Group.List
import Mathlib.Algebra.Order.Group.Nat
import ScriptedPng.Proofs.Record.Layout
import ScriptedPng.Record.Class

/-!
# Sound records of classes

A record is made from the fields that its class and the classes it inherits from declare. If these
fields are sound, then so is the record, and whatever is described with records of the classes.
Declaring further classes, or adding a field to a class, keeps this.

## Main definitions

* `Registry.lists` — the names that each class lists.
* `Registry.Sound` — every class has a field for each name that it lists, and the fields are sound.
* `Registry.Grows` — classes have been declared, or fields have been added to them.

## Main statements

* `Registry.Sound.value`, `Registry.Sound.field` — what is described is sound.
* `Value.Sound.refresh` — a value that is brought up to date is sound.
* `Registry.Sound.declare`, `Registry.Sound.contribute` — the classes declared change soundly.
-/

namespace ScriptedPng.Record

/-! ## Loops -/

section

variable {α β : Type}

/-- What is kept in each round is kept by all. -/
theorem of_foldlM {p : β → Prop} {f : β → α → Except Fault β} {items : List α}
    (hstep : ∀ item ∈ items, ∀ state next, p state → f state item = .ok next → p next)
    {start stop : β} (hstart : p start) (h : items.foldlM f start = .ok stop) : p stop := by
  induction items generalizing start with
  | nil =>
    cases h
    exact hstart
  | cons item rest ih =>
    obtain ⟨hitem, hrest⟩ := List.forall_mem_cons.1 hstep
    obtain ⟨next, hnext, h⟩ := bind_eq_ok.1 h
    exact ih hrest (hitem start next hstart hnext) h

/-- What comes of several items has come of one of them each. -/
theorem exists_of_mapM {f : α → Except Fault β} {items : List α} {found : List β}
    (h : items.mapM f = .ok found) : ∀ b ∈ found, ∃ a ∈ items, f a = .ok b := by
  induction items generalizing found with
  | nil =>
    cases h
    exact List.forall_mem_nil _
  | cons item rest ih =>
    rw [List.mapM_cons] at h
    obtain ⟨first, hfirst, h⟩ := bind_eq_ok.1 h
    obtain ⟨more, hmore, h⟩ := bind_eq_ok.1 h
    cases h
    refine List.forall_mem_cons.2 ⟨⟨item, List.mem_cons_self, hfirst⟩, fun b hmem => ?_⟩
    obtain ⟨a, ha, hb⟩ := ih hmore b hmem
    exact ⟨a, List.mem_cons_of_mem _ ha, hb⟩

end

/-! ## Lineages -/

/-- The lists are shorter in all once a head has been taken off those that start with it. -/
theorem length_withoutHead_lt {lineages : List (List Nat)} {head : Nat}
    (hhead : head ∈ lineages.filterMap List.head?) :
    (lineages.map fun lineage =>
      if lineage.head? = some head then lineage.tail else lineage).flatten.length <
        lineages.flatten.length := by
  obtain ⟨first, hfirst, hstart⟩ := List.mem_filterMap.1 hhead
  rw [List.length_flatten, List.length_flatten, List.map_map]
  refine List.sum_lt_sum _ _ (fun lineage _ => ?_) ⟨first, hfirst, ?_⟩
  · dsimp only [Function.comp_apply]
    split
    · rw [List.length_tail]
      exact Nat.sub_le _ _
    · exact Nat.le_refl _
  · obtain ⟨tail, rfl⟩ := List.head?_eq_some_iff.1 hstart
    simp

/-- Whatever is in one of the lists is in the lists merged. -/
theorem mem_of_mergeWithin {bound : Nat} {lineages : List (List Nat)} {merged : List Nat}
    (hbound : lineages.flatten.length ≤ bound) (h : mergeWithin bound lineages = some merged) :
    ∀ lineage ∈ lineages, lineage ⊆ merged := by
  -- The bound is never met before the lists are empty, since each round takes a head off one.
  induction bound generalizing lineages merged with
  | zero =>
    intro lineage hmem id hid
    have hnil := List.eq_nil_of_length_eq_zero (Nat.le_zero.1 hbound)
    exact absurd (List.mem_flatten_of_mem hmem hid) (hnil ▸ List.not_mem_nil)
  | succ bound ih =>
    rw [mergeWithin] at h
    split at h
    · rename_i hempty
      intro lineage hmem id hid
      have hnil := List.isEmpty_iff.1 (List.all_eq_true.1 hempty lineage hmem)
      exact absurd hid (hnil ▸ List.not_mem_nil)
    obtain ⟨head, hhead, h⟩ := Option.bind_eq_some_iff.1 h
    obtain ⟨rest, hrest, h⟩ := Option.bind_eq_some_iff.1 h
    cases h
    have hshorter := length_withoutHead_lt (List.mem_of_find?_eq_some hhead)
    intro lineage hmem id hid
    have hmore := ih (by omega) hrest _ (List.mem_map_of_mem hmem)
    split at hmore
    · rename_i hstart
      obtain ⟨tail, rfl⟩ := List.head?_eq_some_iff.1 hstart
      rcases List.mem_cons.1 hid with rfl | hid
      · exact List.mem_cons_self
      · exact List.mem_cons_of_mem _ (hmore hid)
    · exact List.mem_cons_of_mem _ (hmore hid)

/-! ## Classes -/

namespace Registry

/-- The names that each class lists, in the order in which they are stored. -/
def lists (registry : Registry) : List (List String) :=
  registry.classes.map Class.order

end Registry

/-- The class is at its place, has a field for each name that it lists, and declares sound
fields. -/
structure Class.Sound (cls : Class) (registry : Registry) (id : Nat) : Prop where
  place : cls.lineage.head? = some id
  found : ∀ name ∈ cls.order, (registry.lookup cls.lineage name).isSome
  declared : ∀ entry ∈ cls.declared, entry.2.Sound registry.lists

/-- Every class is there still, and has at least the fields that it has had. -/
structure Registry.Grows (registry after : Registry) : Prop where
  lists : registry.lists <+: after.lists
  classes : ∀ (id : Nat) (cls : Class), registry.classes[id]? = some cls →
    ∃ grown : Class, after.classes[id]? = some grown ∧
      ∀ name, (cls.declared.lookup name).isSome → (grown.declared.lookup name).isSome

/-- All classes are sound. -/
def Registry.Sound (registry : Registry) : Prop :=
  ∀ (id : Nat) (cls : Class), registry.classes[id]? = some cls → cls.Sound registry id

namespace Registry

variable {registry after : Registry} {cls : Class} {id : Nat} {name : String}

theorem isSome_lookup_iff {lineage : List Nat} : (registry.lookup lineage name).isSome ↔
    ∃ id ∈ lineage, ∃ cls, registry.classes[id]? = some cls ∧
      (cls.declared.lookup name).isSome := by
  simp only [lookup, members, List.isSome_findSome?, List.any_eq_true, List.mem_filterMap]
  constructor
  · rintro ⟨cls, ⟨id, hid, hcls⟩, hname⟩
    exact ⟨id, hid, cls, hcls, hname⟩
  · rintro ⟨id, hid, cls, hcls, hname⟩
    exact ⟨cls, ⟨id, hid, hcls⟩, hname⟩

/-- A name that has a field has one when there is more to look through. -/
theorem Grows.isSome_lookup {lineage longer : List Nat} (h : registry.Grows after)
    (hlineage : lineage ⊆ longer) (hname : (registry.lookup lineage name).isSome) :
    (after.lookup longer name).isSome := by
  obtain ⟨id, hid, cls, hcls, hname⟩ := isSome_lookup_iff.1 hname
  obtain ⟨grown, hgrown, hmore⟩ := h.classes id cls hcls
  exact isSome_lookup_iff.2 ⟨id, hlineage hid, grown, hgrown, hmore name hname⟩

/-- A class that is there as it was is sound still. -/
theorem Grows.sound (h : registry.Grows after) (hcls : cls.Sound registry id) :
    cls.Sound after id where
  place := hcls.place
  found name hmem := h.isSome_lookup (List.Subset.refl _) (hcls.found name hmem)
  declared entry hmem := (hcls.declared entry hmem).mono h.lists

theorem getElem?_of_getBehind {skipped : Nat}
    (h : registry.getBehind skipped name = .ok (id, cls)) : registry.classes[id]? = some cls := by
  unfold Registry.getBehind at h
  dsimp only at h
  split at h
  · cases h
  · rename_i hfound
    cases h
    have hmem := List.mem_reverse.1 (List.mem_of_find?_eq_some hfound)
    exact List.mem_zipIdx_iff_getElem?.1 hmem

theorem getElem?_of_getBase (h : registry.getBase name = .ok (id, cls)) :
    registry.classes[id]? = some cls := by
  unfold Registry.getBase at h
  split at h
  · cases h
  · rename_i root hroot
    split at h
    · cases h
      rwa [← List.head?_eq_getElem?]
    · exact getElem?_of_getBehind h

/-! ## Records of classes -/

/-- A class has a part for each of its names. -/
theorem length_parts (registry : Registry) (cls : Class) :
    (registry.parts cls).length = (registry.kind cls).names.length := by
  refine List.filterMap_length_eq_length.2 fun name hmem => ?_
  rw [Option.isSome_map]
  exact (List.mem_filter.1 hmem).2

namespace Sound

theorem lookup {lineage : List Nat} {field : Field} (h : registry.Sound)
    (hlookup : registry.lookup lineage name = some field) : field.Sound registry.lists := by
  obtain ⟨cls, hcls, hfield⟩ := List.exists_of_findSome?_eq_some hlookup
  obtain ⟨id, -, hid⟩ := List.mem_filterMap.1 hcls
  obtain ⟨front, back, heq, -⟩ := List.lookup_eq_some_iff.1 hfield
  exact (h id cls hid).declared (name, field) (by simp [heq])

theorem parts (h : registry.Sound) (cls : Class) :
    ∀ part ∈ registry.parts cls, part.Sound registry.lists := by
  intro part hmem
  obtain ⟨name, -, hname⟩ := List.mem_filterMap.1 hmem
  obtain ⟨field, hfield, rfl⟩ := Option.map_eq_some_iff.1 hname
  exact (h.lookup hfield).asPart _ _

/-- What a class lists is what its records store. -/
theorem orderedNames_kind (h : registry.Sound) (hcls : registry.classes[id]? = some cls) :
    (registry.kind cls).orderedNames = cls.order := by
  have hnames : ∀ name ∈ cls.order, name ∈ registry.names cls := by
    intro name hmem
    refine List.mem_filter.2 ⟨List.mem_eraseDups.2 (List.mem_append_left _ hmem), ?_⟩
    exact (h id cls hcls).found name hmem
  rw [RecordKind.orderedNames, RecordKind.inOrder, kind, List.filterMap_map]
  refine (List.filterMap_congr (g := some) fun name hmem => ?_).trans List.filterMap_some
  exact List.getElem?_idxOf (hnames name hmem)

/-- A record as its class declares it fits, as long as nothing is attached to it. -/
theorem fits_kind (h : registry.Sound) (hcls : registry.classes[id]? = some cls) {label : Label}
    (hfree : ∀ name ∈ cls.order, label.lookup name = none) :
    (registry.kind cls).Fits registry.lists label (registry.parts cls) where
  nodup := (nodup_eraseDups _).filter _
  length_eq := length_parts registry cls
  listed := by
    have hplace : (registry.kind cls).lineage.head? = some id := (h id cls hcls).place
    rw [hplace, h.orderedNames_kind hcls, Option.bind_some, lists, List.getElem?_map, hcls,
      Option.map_some]
  free := by rwa [h.orderedNames_kind hcls]

end Sound

theorem sound_firstValues {lists : List (List String)} :
    ∀ entry ∈ firstValues, entry.2.Sound lists := by
  simp only [firstValues, List.forall_mem_cons, List.not_mem_nil, false_imp_iff, implies_true,
    and_true]
  exact ⟨Value.sound_of_inside rfl trivial, Value.sound_of_inside rfl trivial,
    Value.sound_of_inside rfl trivial, Value.sound_of_inside rfl trivial⟩

theorem sound_fresh {lists : List (List String)} : Label.fresh.Sound lists := by
  simp [Label.Sound, Label.fresh, Label.attached]

namespace Sound

variable {field : Field}

theorem instantiate (h : registry.Sound) (hcls : registry.classes[id]? = some cls)
    (hrecord : registry.instantiate cls = .ok field) : field.Sound registry.lists := by
  have hdeclared :
      (Field.record .fresh (registry.kind cls) (registry.parts cls)).Sound registry.lists :=
    Field.sound_record_iff.2 ⟨h.fits_kind hcls fun _ _ => rfl, h.parts cls, sound_fresh⟩
  obtain ⟨record, hset, hrecord⟩ := bind_eq_ok.1 hrecord
  have hsound : record.Sound registry.lists := by
    refine of_foldlM (fun entry hmem state next hstate hnext => ?_) hdeclared hset
    exact hstate.setPart (sound_firstValues entry (List.mem_of_mem_filter hmem)) hnext
  split at hrecord
  · cases hrecord
  · cases hrecord
    exact hsound

theorem create {args : List (String × Value)} (h : registry.Sound)
    (hcls : registry.classes[id]? = some cls) (hargs : ∀ entry ∈ args, entry.2.Sound registry.lists)
    (hrecord : registry.create cls args = .ok field) : field.Sound registry.lists := by
  unfold Registry.create at hrecord
  split at hrecord
  · cases hrecord
  · obtain ⟨declared, hdeclared, hrecord⟩ := bind_eq_ok.1 hrecord
    refine of_foldlM ?_ (h.instantiate hcls hdeclared) hrecord
    rintro ⟨name, value⟩ hmem state next hstate hnext
    dsimp only at hnext
    split at hnext
    · exact hstate.setPart (hargs _ hmem) hnext
    · cases hnext

end Sound

/-! ## Descriptions -/

section

variable {lists : List (List String)} {value : Value} {field : Field}

theorem sound_ofNumber {format : IntegerFormat} {order : ByteOrder} {choices : Option Enumeration}
    (hvalue : value.Sound lists) (h : Field.ofNumber format order choices value = .ok field) :
    field.Sound lists := by
  obtain ⟨number, hnumber, rfl⟩ := map_eq_ok.1 h
  exact Field.sound_number_iff.2 ⟨sound_of_numberOf hvalue hnumber, sound_fresh⟩

theorem sound_ofOctets {length : Option Int} (h : Field.ofOctets length value = .ok field) :
    field.Sound lists := by
  unfold Field.ofOctets at h
  split at h <;>
  · obtain ⟨_, -, h⟩ := bind_eq_ok.1 h
    obtain ⟨data, -, h⟩ := bind_eq_ok.1 h
    cases h
    exact Field.sound_octets_iff.2 sound_fresh

theorem sound_ofArray {element : ClassRef} (hvalue : value.Sound lists)
    (h : Field.ofArray element value = .ok field) : field.Sound lists := by
  obtain ⟨items, hitems, rfl⟩ := map_eq_ok.1 h
  exact Field.sound_array_iff.2 ⟨Value.sound_list_iff.2 (hvalue.elements hitems), sound_fresh⟩

end

mutual

/-- A value that is described is sound. -/
theorem Sound.value (h : registry.Sound) : ∀ (literal : Literal) {value : Value},
    registry.value literal = .ok value → value.Sound registry.lists
  | .null, _, hvalue | .integer _, _, hvalue | .octets _, _, hvalue => by
    cases hvalue
    exact Value.sound_of_inside rfl trivial
  | .list items, _, hvalue => by
    obtain ⟨values, hvalues, rfl⟩ := map_eq_ok.1 hvalue
    exact Value.sound_list_iff.2 (h.values items hvalues)
  | .field spec, _, hvalue => by
    obtain ⟨field, hfield, rfl⟩ := map_eq_ok.1 hvalue
    exact h.field spec hfield
  | .record _ args, _, hvalue => by
    obtain ⟨_, hcls, hvalue⟩ := bind_eq_ok.1 hvalue
    obtain ⟨values, hvalues, hvalue⟩ := bind_eq_ok.1 hvalue
    obtain ⟨field, hfield, hvalue⟩ := bind_eq_ok.1 hvalue
    cases hvalue
    exact h.create (getElem?_of_getBehind hcls) (h.arguments args hvalues) hfield

/-- Values that are described are sound. -/
theorem Sound.values (h : registry.Sound) : ∀ (literals : List Literal) {values : List Value},
    registry.values literals = .ok values → ∀ value ∈ values, value.Sound registry.lists
  | [], _, hvalues => by
    cases hvalues
    exact List.forall_mem_nil _
  | literal :: rest, _, hvalues => by
    obtain ⟨value, hvalue, hvalues⟩ := bind_eq_ok.1 hvalues
    obtain ⟨values, hrest, hvalues⟩ := bind_eq_ok.1 hvalues
    cases hvalues
    exact List.forall_mem_cons.2 ⟨h.value literal hvalue, h.values rest hrest⟩

/-- Values that are described under names are sound. -/
theorem Sound.arguments (h : registry.Sound) :
    ∀ (literals : List (String × Literal)) {values : List (String × Value)},
      registry.arguments literals = .ok values → ∀ entry ∈ values, entry.2.Sound registry.lists
  | [], _, hvalues => by
    cases hvalues
    exact List.forall_mem_nil _
  | (name, literal) :: rest, _, hvalues => by
    obtain ⟨value, hvalue, hvalues⟩ := bind_eq_ok.1 hvalues
    obtain ⟨values, hrest, hvalues⟩ := bind_eq_ok.1 hvalues
    cases hvalues
    exact List.forall_mem_cons.2 ⟨h.value literal hvalue, h.arguments rest hrest⟩

/-- A field that is described is sound. -/
theorem Sound.field (h : registry.Sound) : ∀ (spec : FieldSpec) {field : Field},
    registry.field spec = .ok field → field.Sound registry.lists
  | .number _ _ _ default _, _, hfield => by
    unfold Registry.field at hfield
    split at hfield
    · split at hfield
      · refine sound_ofNumber ?_ hfield
        exact Value.sound_of_inside rfl trivial
      · cases hfield
    · obtain ⟨value, hvalue, hfield⟩ := bind_eq_ok.1 hfield
      exact sound_ofNumber (h.value default hvalue) hfield
  | .octets _ _, _, hfield => by
    obtain ⟨value, -, hfield⟩ := bind_eq_ok.1 hfield
    exact sound_ofOctets hfield
  | .array _ default, _, hfield => by
    obtain ⟨value, hvalue, hfield⟩ := bind_eq_ok.1 hfield
    obtain ⟨_, -, hfield⟩ := bind_eq_ok.1 hfield
    exact sound_ofArray (h.value default hvalue) hfield
  | .sizeOf _, _, hfield | .checksumOf _ _, _, hfield => by
    cases hfield
    exact Field.sound_number_iff.2 ⟨Value.sound_of_inside rfl trivial, sound_fresh⟩
  | .record _ args, _, hfield => by
    obtain ⟨_, hcls, hfield⟩ := bind_eq_ok.1 hfield
    obtain ⟨values, hvalues, hfield⟩ := bind_eq_ok.1 hfield
    exact h.create (getElem?_of_getBehind hcls) (h.arguments args hvalues) hfield
  | .plain default, _, hfield => by
    obtain ⟨value, hvalue, hfield⟩ := bind_eq_ok.1 hfield
    cases hfield
    exact Field.sound_plain_iff.2 ⟨h.value default hvalue, sound_fresh⟩

end

/-! ## Bringing up to date -/

theorem refreshValues_eq (registry : Registry) (items : List Value) :
    registry.refreshValues items = items.map registry.refreshValue := by
  induction items with
  | nil => rfl
  | cons item rest ih => rw [refreshValues, ih, List.map_cons]

theorem refreshAll_eq (registry : Registry) (parts : List Field) :
    registry.refreshAll parts = parts.map registry.refresh := by
  induction parts with
  | nil => rfl
  | cons part rest ih => rw [refreshAll, ih, List.map_cons]

theorem refreshAttached_eq (registry : Registry) (attached : List (String × Value)) :
    registry.refreshAttached attached =
      attached.map fun (name, value) => (name, registry.refreshValue value) := by
  induction attached with
  | nil => rfl
  | cons entry rest ih => rw [refreshAttached, ih, List.map_cons]

variable {label : Label}

/-- A label whose values are sound once they are up to date is so itself. -/
theorem sound_refreshLabel {lists : List (List String)}
    (h : ∀ value ∈ label.attached.map Prod.snd, (registry.refreshValue value).Sound lists) :
    (registry.refreshLabel label).Sound lists := by
  cases label with
  | mk owner name held attached =>
    rw [Label.Sound, refreshLabel, Label.attached, refreshAttached_eq]
    refine List.forall_mem_map.2 (List.forall_mem_map.2 fun entry hmem => ?_)
    exact h entry.2 (List.mem_map_of_mem hmem)

/-- Nothing is attached to a label by bringing it up to date. -/
theorem lookup_refreshLabel_of_none (h : label.lookup name = none) :
    (registry.refreshLabel label).lookup name = none := by
  cases label with
  | mk owner name held attached =>
    rw [Label.lookup, refreshLabel, Label.attached, refreshAttached_eq]
    exact List.lookup_eq_none_iff.2 (List.forall_mem_map.2 (List.lookup_eq_none_iff.1 h))

/-- A label to which the values are attached that some attributes are set to first of all, unless
something is attached in their places already. -/
theorem attach_firstValues {added : List (Attribute × Value)} {p : Label → Prop} (hlabel : p label)
    (hadded : ∀ entry ∈ added, ∀ label, p label → p (label.attach entry.1.word entry.2)) :
    p (added.foldl (fun label (what, value) =>
      if (label.lookup what.word).isSome then label else label.attach what.word value) label) := by
  induction added generalizing label with
  | nil => exact hlabel
  | cons entry rest ih =>
    obtain ⟨hentry, hrest⟩ := List.forall_mem_cons.1 hadded
    refine ih ?_ hrest
    dsimp only
    split
    · exact hlabel
    · exact hentry label hlabel

/-- A record that is brought up to date is sound if its parts are. What is attached to it then
stands in the places of parts that have been added, and these are not stored. -/
theorem Sound.refresh_record {kind : RecordKind} {parts : List Field} (h : registry.Sound)
    (hfits : kind.Fits registry.lists label parts)
    (hparts : ∀ part ∈ parts, (registry.refresh part).Sound registry.lists)
    (hlabel : (registry.refreshLabel label).Sound registry.lists) :
    (registry.refresh (.record label kind parts)).Sound registry.lists := by
  obtain ⟨id, hid, hlisted⟩ := Option.bind_eq_some_iff.1 hfits.listed
  rw [lists, List.getElem?_map] at hlisted
  obtain ⟨cls, hcls, horder⟩ := Option.map_eq_some_iff.1 hlisted
  have hkept : ∀ part ∈ parts.map registry.refresh, part.Sound registry.lists :=
    List.forall_mem_map.2 hparts
  have hcurrent : kind.lineage.head?.bind (registry.classes[·]?) = some cls :=
    Option.bind_eq_some_iff.2 ⟨id, hid, hcls⟩
  simp only [refresh, hcurrent]
  refine Field.sound_record_iff.2 ⟨?_, List.forall_mem_map.2 ?_, ?_⟩
  · refine (h.fits_kind hcls ?_).of_length ?_
    · refine attach_firstValues (p := fun label => ∀ name ∈ cls.order, label.lookup name = none)
        (fun name hname => ?_) fun entry hmem label hfree name hname => ?_
      · exact lookup_refreshLabel_of_none (hfits.free name (horder ▸ hname))
      · refine Label.lookup_attach_of_none (fun heq => ?_) (hfree name hname)
        have hold : entry.1.word ∈ kind.names := heq ▸ mem_of_mem_inOrder (horder ▸ hname)
        simpa [RecordKind.hides, hold] using (List.mem_filter.1 hmem).2
    · rw [List.length_map, List.length_zip, length_parts, Nat.min_self]
  · rintro ⟨name, part⟩ hmem
    dsimp only
    cases hheld : (Field.named? kind.names (registry.refreshAll parts) name).filter
        (·.label.held) with
    | none => exact h.parts cls part (List.of_mem_zip hmem).2
    | some found =>
      obtain ⟨hfound, -⟩ := Option.filter_eq_some_iff.1 hheld
      exact hkept found (refreshAll_eq registry parts ▸ List.mem_of_getElem? hfound)
  · refine attach_firstValues hlabel fun entry hmem label hlabel => ?_
    exact hlabel.attach _ (sound_firstValues entry (List.mem_of_mem_filter hmem))

end Registry

/-- A value that is brought up to date is sound. -/
theorem Value.Sound.refresh {registry : Registry} {value : Value} (hregistry : registry.Sound)
    (h : value.Sound registry.lists) : (registry.refreshValue value).Sound registry.lists := by
  induction h with
  | @intro value hfits hinside ih =>
    cases value with
    | list items =>
      rw [Registry.refreshValue, Registry.refreshValues_eq]
      exact sound_list_iff.2 (List.forall_mem_map.2 ih)
    | field whole =>
      rw [Registry.refreshValue]
      cases whole with
      | number =>
        obtain ⟨hvalue, hlabel⟩ := List.forall_mem_cons.1 ih
        exact Field.sound_number_iff.2 ⟨hvalue, Registry.sound_refreshLabel hlabel⟩
      | octets => exact Field.sound_octets_iff.2 (Registry.sound_refreshLabel ih)
      | array =>
        obtain ⟨hvalue, hlabel⟩ := List.forall_mem_cons.1 ih
        exact Field.sound_array_iff.2 ⟨hvalue, Registry.sound_refreshLabel hlabel⟩
      | record label kind parts =>
        obtain ⟨hparts, hlabel⟩ := List.forall_mem_append.1 ih
        exact hregistry.refresh_record hfits (fun part hmem => hparts _ (List.mem_map_of_mem hmem))
          (Registry.sound_refreshLabel hlabel)
      | plain =>
        obtain ⟨hvalue, hlabel⟩ := List.forall_mem_cons.1 ih
        exact Field.sound_plain_iff.2 ⟨hvalue, Registry.sound_refreshLabel hlabel⟩
    | _ => exact .intro hfits hinside

/-! ## Declarations -/

namespace Registry

variable {registry after : Registry} {name : String}

/-- What a class that is declared is made of. -/
theorem exists_of_declare {bases : List String} {specs : List (String × FieldSpec)}
    (hafter : registry.declare name bases specs = .ok after) :
    ∃ (found : List (Nat × Class)) (inherited : List Nat) (cls : Class),
      (∀ base ∈ found, registry.classes[base.1]? = some base.2 ∧ base.2.lineage ⊆ inherited) ∧
      cls.lineage = registry.classes.length :: inherited ∧
      cls.order = found.flatMap (·.2.order) ++ cls.declared.map Prod.fst ∧
      (∀ entry ∈ cls.declared, ∃ spec, registry.field spec = .ok entry.2) ∧
      after = ⟨registry.settled, registry.classes ++ [cls]⟩ := by
  unfold Registry.declare at hafter
  obtain ⟨found, hfound, hafter⟩ := bind_eq_ok.1 hafter
  obtain ⟨declared, hdeclared, hafter⟩ := bind_eq_ok.1 hafter
  have hfields : ∀ entry ∈ lastEntries declared, ∃ spec, registry.field spec = .ok entry.2 := by
    intro entry hmem
    obtain ⟨⟨name, spec⟩, -, hentry⟩ :=
      exists_of_mapM hdeclared entry (mem_of_mem_lastEntries hmem)
    obtain ⟨field, hfield, hentry⟩ := bind_eq_ok.1 hentry
    cases hentry
    exact ⟨spec, hfield⟩
  dsimp only at hafter
  split at hafter
  · cases hafter
  split at hafter
  · cases hafter
  · rename_i inherited hinherited
    have hbases : ∀ base ∈ found, registry.classes[base.1]? = some base.2 ∧
        base.2.lineage ⊆ inherited := by
      intro base hmem
      obtain ⟨_, -, hbase⟩ := exists_of_mapM hfound base hmem
      refine ⟨getElem?_of_getBase hbase, ?_⟩
      split at hinherited
      · exact mem_of_mergeWithin (Nat.le_refl _) hinherited _
          (List.mem_append_left _ (List.mem_map_of_mem hmem))
      · cases hinherited
    split at hafter
    · cases hafter
    · cases hafter
      exact ⟨found, inherited, _, hbases, rfl, rfl, hfields, rfl⟩

/-- A class more leaves the others as they are. -/
theorem grows_append (registry : Registry) (cls : Class) :
    registry.Grows ⟨registry.settled, registry.classes ++ [cls]⟩ where
  lists := by
    rw [lists, lists, List.map_append]
    exact List.prefix_append _ _
  classes id cls hcls := by
    refine ⟨cls, ?_, fun _ hname => hname⟩
    rw [List.getElem?_append_left (List.getElem?_eq_some_iff.1 hcls).1, hcls]

/-- A class can be declared. -/
theorem Sound.declare {bases : List String} {specs : List (String × FieldSpec)}
    (h : registry.Sound) (hafter : registry.declare name bases specs = .ok after) :
    registry.Grows after ∧ after.Sound := by
  obtain ⟨found, inherited, added, hbases, hlineage, horder, hfields, rfl⟩ :=
    exists_of_declare hafter
  have hgrows := grows_append registry added
  have hadded : added.Sound ⟨registry.settled, registry.classes ++ [added]⟩
      registry.classes.length := by
    refine ⟨by rw [hlineage, List.head?_cons], fun name hmem => ?_, fun entry hmem => ?_⟩
    · rcases List.mem_append.1 (horder ▸ hmem) with hmem | hmem
      · obtain ⟨base, hbase, hname⟩ := List.mem_flatMap.1 hmem
        obtain ⟨hthere, hinherited⟩ := hbases base hbase
        exact hgrows.isSome_lookup (hlineage ▸ List.subset_cons_of_subset _ hinherited)
          ((h base.1 base.2 hthere).found name hname)
      · exact isSome_lookup_iff.2 ⟨registry.classes.length, hlineage ▸ List.mem_cons_self, added,
          List.getElem?_concat_length, isSome_lookup_iff_mem.2 hmem⟩
    · obtain ⟨spec, hspec⟩ := hfields entry hmem
      exact Value.Sound.mono (h.field spec hspec) hgrows.lists
  refine ⟨hgrows, fun id cls hcls => ?_⟩
  rcases Nat.lt_or_ge id registry.classes.length with hlt | hge
  · rw [List.getElem?_append_left hlt] at hcls
    exact hgrows.sound (h id cls hcls)
  · rw [List.getElem?_append_right hge, List.getElem?_singleton] at hcls
    split at hcls
    · rename_i hid
      cases hcls
      obtain rfl : id = registry.classes.length :=
        Nat.le_antisymm (Nat.sub_eq_zero_iff_le.1 hid) hge
      exact hadded
    · cases hcls

end Registry

/-- The class with one more field. -/
def Class.grow (cls : Class) (name : String) (field : Field) : Class :=
  { cls with declared := cls.declared ++ [(name, field)] }

/-- The class with all fields that it declares brought up to date. -/
def Class.refreshed (registry : Registry) (cls : Class) : Class :=
  { cls with declared := cls.declared.map fun (name, field) => (name, registry.refresh field) }

/-- The classes with all fields that they declare brought up to date. -/
def Registry.refreshed (registry : Registry) : Registry :=
  ⟨registry.settled, registry.classes.map (Class.refreshed registry)⟩

namespace Registry

variable {registry after : Registry} {cls : Class} {id : Nat} {name : String}

theorem lists_refreshed (registry : Registry) : registry.refreshed.lists = registry.lists := by
  rw [lists, lists, refreshed, List.map_map]
  rfl

theorem getElem?_refreshed (registry : Registry) (id : Nat) :
    registry.refreshed.classes[id]? = registry.classes[id]?.map (Class.refreshed registry) :=
  List.getElem?_map

theorem grows_refreshed (registry : Registry) : registry.Grows registry.refreshed where
  lists := (lists_refreshed registry).symm ▸ List.prefix_rfl
  classes id cls hcls := by
    refine ⟨cls.refreshed registry, by rw [getElem?_refreshed, hcls]; rfl, fun name hname => ?_⟩
    rw [isSome_lookup_iff_mem] at hname ⊢
    rwa [Class.refreshed, List.map_map]

/-- The fields that the classes declare can be brought up to date. -/
theorem Sound.refreshed (h : registry.Sound) : registry.refreshed.Sound := by
  intro id cls hcls
  rw [getElem?_refreshed] at hcls
  obtain ⟨before, hbefore, rfl⟩ := Option.map_eq_some_iff.1 hcls
  obtain ⟨hplace, hfound, -⟩ := (grows_refreshed registry).sound (h id before hbefore)
  refine ⟨hplace, hfound, List.forall_mem_map.2 fun entry hmem => ?_⟩
  rw [lists_refreshed]
  exact Value.Sound.refresh h ((h id before hbefore).declared entry hmem)

section

variable {field : Field}

/-- What the classes list stays the same as another field is declared. -/
theorem lists_grow (hcls : registry.classes[id]? = some cls) :
    lists ⟨registry.settled, registry.classes.set id (cls.grow name field)⟩ = registry.lists := by
  rw [lists, List.map_set]
  exact set_eq_self (by rw [List.getElem?_map, hcls]; rfl)

theorem grows_grow (name : String) (field : Field) (hcls : registry.classes[id]? = some cls) :
    registry.Grows ⟨registry.settled, registry.classes.set id (cls.grow name field)⟩ where
  lists := (lists_grow hcls).symm ▸ List.prefix_rfl
  classes other before hbefore := by
    by_cases heq : id = other
    · subst heq
      obtain rfl : cls = before := Option.some.inj (hcls.symm.trans hbefore)
      refine ⟨cls.grow name field, List.getElem?_set_self (List.getElem?_eq_some_iff.1 hcls).1,
        fun wanted hwanted => ?_⟩
      rw [isSome_lookup_iff_mem] at hwanted ⊢
      rw [Class.grow, List.map_append]
      exact List.mem_append_left _ hwanted
    · exact ⟨before, (List.getElem?_set_ne heq).trans hbefore, fun _ hwanted => hwanted⟩

/-- A field may be declared besides others. -/
theorem Sound.grow (h : registry.Sound) (hfield : field.Sound registry.lists)
    (hcls : registry.classes[id]? = some cls) :
    Registry.Sound ⟨registry.settled, registry.classes.set id (cls.grow name field)⟩ := by
  intro other after hafter
  have hgrows := grows_grow name field hcls
  by_cases heq : id = other
  · subst heq
    obtain rfl : cls.grow name field = after := Option.some.inj
      ((List.getElem?_set_self (List.getElem?_eq_some_iff.1 hcls).1).symm.trans hafter)
    obtain ⟨hplace, hfound, hdeclared⟩ := hgrows.sound (h id cls hcls)
    refine ⟨hplace, hfound, List.forall_mem_append.2 ⟨hdeclared, ?_⟩⟩
    rw [lists_grow hcls]
    exact List.forall_mem_singleton.2 hfield
  · exact hgrows.sound (h other after ((List.getElem?_set_ne heq).symm.trans hafter))

end

/-- What a field added to a class changes. -/
theorem exists_of_contribute {className : String} {field : Field}
    (hafter : registry.contribute className name field = .ok after) :
    ∃ (id : Nat) (cls : Class), registry.classes[id]? = some cls ∧
      after = refreshed ⟨registry.settled, registry.classes.set id (cls.grow name field)⟩ := by
  unfold Registry.contribute at hafter
  obtain ⟨⟨id, cls⟩, hcls, hafter⟩ := bind_eq_ok.1 hafter
  dsimp only at hafter
  split at hafter
  · cases hafter
  · cases hafter
    exact ⟨id, cls, getElem?_of_getBehind hcls, rfl⟩

/-- A field can be added to a class. -/
theorem Sound.contribute {className : String} {field : Field} (h : registry.Sound)
    (hfield : field.Sound registry.lists)
    (hafter : registry.contribute className name field = .ok after) :
    after.lists = registry.lists ∧ after.Sound := by
  obtain ⟨id, cls, hcls, rfl⟩ := exists_of_contribute hafter
  exact ⟨(lists_refreshed _).trans (lists_grow hcls), (h.grow hfield hcls).refreshed⟩

end Registry

end ScriptedPng.Record
