import ScriptedPng.Proofs.Record.Nested
import ScriptedPng.Record.Path

/-!
# Sound values

In a record there is one part for each name, and no name is there twice; the parts that are stored
are those that its class lists, and nothing is attached in their places. That holds of all records
in a value, however deep, whatever is done with the value.

## Main definitions

* `RecordKind.Fits` — the names of a kind of records fit the parts.
* `Value.Sound` — in all records in a value, the names fit the parts.

## Main statements

* `Value.Sound.changeAt` — what is at a position can be replaced.
* `Field.Sound.set`, `Field.Sound.append`, … — fields can be changed.
* `Value.Sound.use`, `Field.Sound.packWithin` — fields can be used, and packed.
-/

namespace ScriptedPng.Record

/-! ## Results -/

section

variable {α β : Type}

theorem map_eq_ok {result : Except Fault α} {f : α → β} {b : β} :
    result.map f = .ok b ↔ ∃ a, result = .ok a ∧ f a = b := by
  cases result <;> simp [Except.map]

theorem bind_eq_ok {result : Except Fault α} {next : α → Except Fault β} {b : β} :
    (result >>= next) = .ok b ↔ ∃ a, result = .ok a ∧ next a = .ok b := by
  cases result <;> simp [bind, Except.bind]

/-- What holds of all items holds of them after one has been replaced. -/
theorem forall_mem_set {p : α → Prop} {items : List α} {place : Nat} {item : α}
    (h : ∀ other ∈ items, p other) (hitem : p item) : ∀ other ∈ items.set place item, p other := by
  intro other hmem
  rcases List.mem_or_eq_of_mem_set hmem with hmem | rfl
  · exact h other hmem
  · exact hitem

end

/-! ## Values -/

/-- No name is there twice, and there is one part for each. The parts that are stored are those that
the class of the record lists, by the lists of all classes, and nothing is attached in their
places. -/
structure RecordKind.Fits (kind : RecordKind) (lists : List (List String)) (label : Label)
    (parts : List Field) : Prop where
  nodup : kind.names.Nodup
  length_eq : parts.length = kind.names.length
  listed : kind.lineage.head?.bind (lists[·]?) = some kind.orderedNames
  free : ∀ name ∈ kind.orderedNames, label.lookup name = none

/-- The parts may change as long as they are as many as before. -/
theorem RecordKind.Fits.of_length {kind : RecordKind} {lists : List (List String)} {label : Label}
    {parts others : List Field} (h : kind.Fits lists label parts)
    (hlength : others.length = parts.length) : kind.Fits lists label others :=
  { h with length_eq := hlength.trans h.length_eq }

namespace Value

/-- The values that a value is made of: the items of a list, or what is attached to a field, its
value, and its parts. -/
def inside : Value → List Value
  | .list items => items
  | .field (.number label _ _ _ _ value) => value :: label.attached.map Prod.snd
  | .field (.octets label _ _) => label.attached.map Prod.snd
  | .field (.array label _ value) => value :: label.attached.map Prod.snd
  | .field (.record label _ parts) => parts.map field ++ label.attached.map Prod.snd
  | .field (.plain label value) => value :: label.attached.map Prod.snd
  | _ => []

/-- If the value is a record, its names fit its parts. -/
def Fits (lists : List (List String)) : Value → Prop
  | .field (.record label kind parts) => kind.Fits lists label parts
  | _ => True

/-- In all records in the value, however deep, the names fit the parts. -/
inductive Sound (lists : List (List String)) : Value → Prop
  | intro {value : Value} (hfits : value.Fits lists)
      (hinside : ∀ inner ∈ value.inside, Sound lists inner) : Sound lists value

end Value

/-- In all records in the field, however deep, the names fit the parts. -/
def Field.Sound (lists : List (List String)) (field : Field) : Prop :=
  (Value.field field).Sound lists

/-- All that is attached is sound. -/
def Label.Sound (lists : List (List String)) (label : Label) : Prop :=
  ∀ value ∈ label.attached.map Prod.snd, value.Sound lists

/-- The names of the parts of a record, in the order in which they are stored. -/
def Field.storedNames : Field → List String
  | record _ kind _ => kind.orderedNames
  | _ => []

variable {lists : List (List String)} {label : Label} {value inner : Value} {whole part : Field}
  {name : String}

/-! ## Labels -/

namespace Label

variable {other : String}

theorem lookup_detach_of_none (h : label.lookup other = none) :
    (label.detach name).lookup other = none := by
  refine List.lookup_eq_none_iff.2 fun entry hmem => ?_
  exact List.lookup_eq_none_iff.1 h entry (List.mem_of_mem_filter hmem)

theorem lookup_attach_of_none (hne : other ≠ name) (h : label.lookup other = none) :
    (label.attach name value).lookup other = none := by
  refine List.lookup_eq_none_iff.2 (List.forall_mem_cons.2 ⟨by simpa using hne, ?_⟩)
  exact List.lookup_eq_none_iff.1 (lookup_detach_of_none h)

end Label

namespace Label.Sound

theorem lookup (h : label.Sound lists) (hlookup : label.lookup name = some value) :
    value.Sound lists := by
  obtain ⟨front, back, heq, -⟩ := List.lookup_eq_some_iff.1 hlookup
  exact h value (List.mem_map.2 ⟨(name, value), by simp [heq], rfl⟩)

theorem detach (h : label.Sound lists) (name : String) : (label.detach name).Sound lists := by
  intro value hmem
  obtain ⟨entry, hentry, rfl⟩ := List.mem_map.1 hmem
  exact h _ (List.mem_map_of_mem (List.mem_of_mem_filter hentry))

theorem attach (h : label.Sound lists) (name : String) (hvalue : value.Sound lists) :
    (label.attach name value).Sound lists :=
  List.forall_mem_cons.2 ⟨hvalue, h.detach name⟩

end Label.Sound

/-! ## Kinds of values -/

namespace Value

theorem Sound.of_mem_inside (h : value.Sound lists) (hmem : inner ∈ value.inside) :
    inner.Sound lists := by
  cases h with
  | intro _ hinside => exact hinside inner hmem

theorem Sound.fits (h : value.Sound lists) : value.Fits lists := by
  cases h with
  | intro hfits _ => exact hfits

/-- The lists of more classes may be known. -/
theorem Sound.mono {longer : List (List String)} (h : value.Sound lists)
    (hlists : lists <+: longer) : value.Sound longer := by
  induction h with
  | @intro value hfits _ ih =>
    refine .intro ?_ ih
    unfold Value.Fits at hfits ⊢
    split
    · obtain ⟨id, hid, hlisted⟩ := Option.bind_eq_some_iff.1 hfits.listed
      obtain ⟨hlt, hnames⟩ := List.getElem?_eq_some_iff.1 hlisted
      have hlonger := hnames ▸ List.prefix_iff_getElem?.1 hlists id hlt
      exact { hfits with listed := Option.bind_eq_some_iff.2 ⟨id, hid, hlonger⟩ }
    · trivial

theorem sound_of_inside (h : value.inside = []) (hfits : value.Fits lists) : value.Sound lists :=
  .intro hfits (by simp [h])

theorem sound_list_iff {items : List Value} :
    (list items).Sound lists ↔ ∀ item ∈ items, item.Sound lists :=
  ⟨fun h _ hmem => h.of_mem_inside hmem, fun h => .intro trivial h⟩

end Value

namespace Field

theorem sound_number_iff {role : Role} {format : IntegerFormat} {order : ByteOrder}
    {choices : Option Enumeration} :
    (number label role format order choices value).Sound lists ↔
      value.Sound lists ∧ label.Sound lists :=
  ⟨fun h => List.forall_mem_cons.1 fun _ => h.of_mem_inside,
    fun h => .intro trivial (List.forall_mem_cons.2 h)⟩

theorem sound_octets_iff {length : Option Int} {data : Octets} :
    (octets label length data).Sound lists ↔ label.Sound lists :=
  ⟨fun h _ => h.of_mem_inside, fun h => .intro trivial h⟩

theorem sound_array_iff {element : ClassRef} :
    (array label element value).Sound lists ↔ value.Sound lists ∧ label.Sound lists :=
  ⟨fun h => List.forall_mem_cons.1 fun _ => h.of_mem_inside,
    fun h => .intro trivial (List.forall_mem_cons.2 h)⟩

theorem sound_plain_iff :
    (plain label value).Sound lists ↔ value.Sound lists ∧ label.Sound lists :=
  ⟨fun h => List.forall_mem_cons.1 fun _ => h.of_mem_inside,
    fun h => .intro trivial (List.forall_mem_cons.2 h)⟩

theorem sound_record_iff {kind : RecordKind} {parts : List Field} :
    (record label kind parts).Sound lists ↔
      kind.Fits lists label parts ∧ (∀ part ∈ parts, part.Sound lists) ∧ label.Sound lists := by
  constructor
  · intro h
    have hinside := List.forall_mem_append.1 fun _ => h.of_mem_inside
    refine ⟨h.fits, fun part hmem => ?_, hinside.2⟩
    exact hinside.1 _ (List.mem_map_of_mem hmem)
  · rintro ⟨hfits, hparts, hlabel⟩
    exact .intro hfits (List.forall_mem_append.2 ⟨List.forall_mem_map.2 hparts, hlabel⟩)

namespace Sound

theorem sound_label (h : whole.Sound lists) : whole.label.Sound lists := by
  cases whole with
  | number => exact (sound_number_iff.1 h).2
  | octets => exact sound_octets_iff.1 h
  | array => exact (sound_array_iff.1 h).2
  | record => exact (sound_record_iff.1 h).2.2
  | plain => exact (sound_plain_iff.1 h).2

/-- A part can be replaced. -/
theorem setPlace {kind : RecordKind} {parts : List Field} {place : Nat}
    (h : (record label kind parts).Sound lists) (hpart : part.Sound lists) :
    (record label kind (parts.set place part)).Sound lists := by
  obtain ⟨hfits, hparts, hlabel⟩ := sound_record_iff.1 h
  exact sound_record_iff.2
    ⟨hfits.of_length List.length_set, forall_mem_set hparts hpart, hlabel⟩

/-- A name is stored only if there is a part of that name. -/
theorem not_mem_storedNames (h : whole.Sound lists) (hname : whole.part? name = none) :
    name ∉ whole.storedNames := by
  intro hmem
  cases whole with
  | record label kind parts =>
    have hlt := List.idxOf_lt_length_of_mem (mem_of_mem_inOrder hmem)
    rw [← (sound_record_iff.1 h).1.length_eq] at hlt
    rw [Field.part?, Field.named?, List.getElem?_eq_getElem hlt] at hname
    cases hname
  | _ => cases hmem

/-- In the place of a part that is stored there is nothing attached. -/
theorem free (h : whole.Sound lists) (hname : name ∈ whole.storedNames) :
    whole.label.lookup name = none := by
  cases whole with
  | record => exact (sound_record_iff.1 h).1.free name hname
  | _ => cases hname

/-- A label may be changed as long as what is attached stays sound, and out of the way. -/
theorem mapLabel {f : Label → Label} (h : whole.Sound lists) (hf : (f whole.label).Sound lists)
    (hfree : ∀ name ∈ whole.storedNames, whole.label.lookup name = none →
      (f whole.label).lookup name = none) : (whole.mapLabel f).Sound lists := by
  cases whole with
  | number => exact sound_number_iff.2 ⟨(sound_number_iff.1 h).1, hf⟩
  | octets => exact sound_octets_iff.2 hf
  | array => exact sound_array_iff.2 ⟨(sound_array_iff.1 h).1, hf⟩
  | record =>
    obtain ⟨hfits, hparts, -⟩ := sound_record_iff.1 h
    have hclear := fun name hname => hfree name hname (hfits.free name hname)
    exact sound_record_iff.2 ⟨{ hfits with free := hclear }, hparts, hf⟩
  | plain => exact sound_plain_iff.2 ⟨(sound_plain_iff.1 h).1, hf⟩

theorem hold (h : whole.Sound lists) : whole.hold.Sound lists :=
  h.mapLabel h.sound_label fun _ _ hnone => hnone

theorem asPart (h : whole.Sound lists) (name record : String) :
    (whole.asPart name record).Sound lists :=
  h.mapLabel ((h.sound_label.detach _).detach _) fun _ _ hnone =>
    Label.lookup_detach_of_none (Label.lookup_detach_of_none hnone)

theorem asElement (h : whole.Sound lists) (array : String) :
    (whole.mapLabel (·.asElement array)).Sound lists :=
  h.mapLabel (h.sound_label.detach _) fun _ _ hnone => Label.lookup_detach_of_none hnone

/-- Anything can be attached that does not get into the place of a part. -/
theorem attach (h : whole.Sound lists) (hname : name ∉ whole.storedNames)
    (hvalue : value.Sound lists) : (whole.mapLabel (·.attach name value)).Sound lists :=
  h.mapLabel (h.sound_label.attach name hvalue) fun _ hother hnone =>
    Label.lookup_attach_of_none (fun heq => hname (heq ▸ hother)) hnone

theorem detach (h : whole.Sound lists) (name : String) :
    (whole.mapLabel (·.detach name)).Sound lists :=
  h.mapLabel (h.sound_label.detach name) fun _ _ hnone => Label.lookup_detach_of_none hnone

end Sound

end Field

/-! ## Positions -/

/-- What a turn leads to without being there is sound. -/
def Turn.Sound (lists : List (List String)) : Turn → Prop
  | .derived value => value.Sound lists
  | _ => True

/-- What the turns lead to without being there is sound. -/
def Position.Sound (lists : List (List String)) (position : Position) : Prop :=
  ∀ turn ∈ position, turn.Sound lists

namespace Value.Sound

theorem turn? {turn : Turn} (h : value.Sound lists) (hturn : turn.Sound lists)
    (hinner : value.turn? turn = some inner) : inner.Sound lists := by
  unfold Value.turn? at hinner
  split at hinner
  · obtain ⟨part, hpart, rfl⟩ := Option.map_eq_some_iff.1 hinner
    exact (Field.sound_record_iff.1 h).2.1 part (List.mem_of_getElem? hpart)
  · exact (Field.Sound.sound_label h).lookup hinner
  · cases hinner
    exact (Field.sound_number_iff.1 h).1
  · cases hinner
    exact sound_of_inside rfl trivial
  · cases hinner
    exact (Field.sound_array_iff.1 h).1
  · cases hinner
    exact (Field.sound_plain_iff.1 h).1
  · exact h.of_mem_inside (List.mem_of_getElem? hinner)
  · obtain ⟨octet, -, rfl⟩ := Option.map_eq_some_iff.1 hinner
    exact sound_of_inside rfl trivial
  · cases hinner
    exact hturn
  · cases hinner

theorem at? {position : Position} (h : value.Sound lists) (hposition : position.Sound lists)
    (hinner : value.at? position = some inner) : inner.Sound lists := by
  induction position generalizing value with
  | nil =>
    cases hinner
    exact h
  | cons turn rest ih =>
    obtain ⟨hturn, hrest⟩ := List.forall_mem_cons.1 hposition
    obtain ⟨middle, hmiddle, hinner⟩ := Option.bind_eq_some_iff.1 hinner
    exact ih (h.turn? hturn hmiddle) hrest hinner

theorem replace {turn : Turn} (h : value.Sound lists) (hturn : (value.turn? turn).isSome)
    (hinner : inner.Sound lists) : (Value.replace turn inner value).Sound lists := by
  unfold Value.replace
  split
  · exact Field.Sound.setPlace h hinner
  · refine Field.Sound.attach h (fun hmem => ?_) hinner
    have hnone := Field.Sound.free h hmem
    simp [Value.turn?, hnone] at hturn
  · exact Field.sound_number_iff.2 ⟨hinner, (Field.sound_number_iff.1 h).2⟩
  · exact Field.sound_array_iff.2 ⟨hinner, (Field.sound_array_iff.1 h).2⟩
  · exact Field.sound_plain_iff.2 ⟨hinner, (Field.sound_plain_iff.1 h).2⟩
  · exact sound_list_iff.2 (forall_mem_set (sound_list_iff.1 h) hinner)
  · exact h

/-- What is at a position can be replaced. -/
theorem changeAt {f : Value → Value} {position : Position}
    (hf : ∀ value : Value, value.Sound lists → (f value).Sound lists) (h : value.Sound lists)
    (hposition : position.Sound lists) : (value.changeAt f position).Sound lists := by
  induction position generalizing value with
  | nil => exact hf value h
  | cons turn rest ih =>
    obtain ⟨hturn, hrest⟩ := List.forall_mem_cons.1 hposition
    rw [Value.changeAt]
    split
    · rename_i middle hmiddle
      exact h.replace (by simp [hmiddle]) (ih (h.turn? hturn hmiddle) hrest)
    · exact h

theorem elements {items : List Value} (h : value.Sound lists)
    (hitems : value.elements = .ok items) : ∀ item ∈ items, item.Sound lists := by
  fun_induction Value.elements value with
  | case1 found =>
    cases hitems
    exact sound_list_iff.1 h
  | case2 data =>
    cases hitems
    exact List.forall_mem_map.2 fun octet _ => sound_of_inside rfl trivial
  | case3 label element value ih => exact ih (Field.sound_array_iff.1 h).1 hitems
  | case4 => cases hitems

end Value.Sound

/-! ## Changes -/

theorem sound_of_numberOf {choices : Option Enumeration} {number : Value} (h : value.Sound lists)
    (hnumber : numberOf choices value = .ok number) : number.Sound lists := by
  unfold numberOf at hnumber
  split at hnumber
  · cases hnumber
    exact h
  · split at hnumber
    · cases hnumber
      exact h
    · cases hnumber
  · split at hnumber
    · cases hnumber
      exact Value.sound_of_inside rfl trivial
    · cases hnumber
  · cases hnumber

namespace Field.Sound

theorem assign {after : Field} (h : whole.Sound lists) (hvalue : value.Sound lists)
    (hafter : whole.assign value = .ok after) : after.Sound lists := by
  unfold Field.assign at hafter
  split at hafter
  · obtain ⟨number, hnumber, rfl⟩ := map_eq_ok.1 hafter
    exact sound_number_iff.2 ⟨sound_of_numberOf hvalue hnumber, (sound_number_iff.1 h).2⟩
  · obtain ⟨data, -, rfl⟩ := map_eq_ok.1 hafter
    exact sound_octets_iff.2 (sound_octets_iff.1 h)
  · cases hafter
    exact sound_array_iff.2 ⟨hvalue, (sound_array_iff.1 h).2⟩
  · split at hafter
    · cases hafter
      exact h
    · cases hafter
  · cases hafter
    exact sound_plain_iff.2 ⟨hvalue, (sound_plain_iff.1 h).2⟩

theorem replacePart (h : whole.Sound lists) (hpart : part.Sound lists) (name : String) :
    (whole.replacePart name part).Sound lists := by
  unfold Field.replacePart
  split
  · exact h.setPlace hpart.hold
  · exact h

theorem part? (h : whole.Sound lists) (hpart : whole.part? name = some part) :
    part.Sound lists := by
  unfold Field.part? at hpart
  split at hpart
  · exact (sound_record_iff.1 h).2.1 part (List.mem_of_getElem? hpart)
  · cases hpart

theorem find? (h : whole.Sound lists) (hfound : whole.find? name = some value) :
    value.Sound lists := by
  unfold Field.find? at hfound
  split at hfound
  · rename_i hlookup
    cases hfound
    exact h.sound_label.lookup hlookup
  · obtain ⟨part, hpart, rfl⟩ := Option.map_eq_some_iff.1 hfound
    exact h.part? hpart

theorem holdPart (h : whole.Sound lists) (name : String) : (whole.holdPart name).Sound lists := by
  unfold Field.holdPart
  split
  · rename_i part hpart
    exact h.replacePart (h.part? hpart) name
  · exact h

theorem setPart {after : Field} (h : whole.Sound lists) (hvalue : value.Sound lists)
    (hafter : whole.setPart name value = .ok after) : after.Sound lists := by
  unfold Field.setPart at hafter
  split at hafter
  · cases hafter
  · cases hafter
    exact (h.detach name).replacePart (Field.Sound.asPart hvalue _ _) name
  · rename_i hfound _
    obtain ⟨part, hpart, rfl⟩ := map_eq_ok.1 hafter
    have hpart : part.Sound lists := assign (h.find? hfound) hvalue hpart
    split
    · rename_i hattached
      exact h.attach (fun hmem => by simp [h.free hmem] at hattached) hpart
    · exact h.replacePart hpart name
  · cases hafter

theorem inOrderOf (h : whole.Sound lists) (value : Value) :
    (whole.inOrderOf value).Sound lists := by
  unfold Field.inOrderOf
  split
  · exact sound_number_iff.2 (sound_number_iff.1 h)
  · exact h

@[simp] theorem storedNames_inOrderOf (value : Value) (whole : Field) :
    (whole.inOrderOf value).storedNames = whole.storedNames := by
  cases whole <;> rfl

theorem set {after : Field} (h : whole.Sound lists) (hvalue : value.Sound lists)
    (hafter : whole.set name value = .ok after) : after.Sound lists := by
  unfold Field.set at hafter
  split at hafter
  · exact h.setPart hvalue hafter
  · rename_i hnone
    have hname := h.not_mem_storedNames (Option.not_isSome_iff_eq_none.1 hnone)
    split at hafter
    · exact h.assign hvalue hafter
    · cases hafter
    · cases hafter
    · cases hafter
    · cases hafter
      exact (h.inOrderOf value).attach (by rwa [storedNames_inOrderOf]) hvalue
    · cases hafter
      exact h.attach hname hvalue

theorem append {after : Field} (h : whole.Sound lists) (hvalue : value.Sound lists)
    (hafter : whole.append value = .ok after) : after.Sound lists := by
  fun_induction Field.append value whole generalizing after with
  | case1 label element item heq _ items =>
    obtain ⟨hitems, hlabel⟩ := sound_array_iff.1 h
    have hitem : (Value.field item).Sound lists := heq ▸ hvalue
    cases hafter
    refine sound_array_iff.2 ⟨Value.sound_list_iff.2 ?_, hlabel⟩
    exact List.forall_mem_append.2 ⟨Value.sound_list_iff.1 hitems,
      List.forall_mem_singleton.2 (asElement hitem _)⟩
  | case2 label element item heq _ innerLabel innerElement inner ih =>
    obtain ⟨hinner, hlabel⟩ := sound_array_iff.1 h
    obtain ⟨changed, hchanged, rfl⟩ := map_eq_ok.1 hafter
    exact sound_array_iff.2 ⟨ih hinner (heq ▸ hchanged), hlabel⟩
  | _ => cases hafter

theorem clear {after : Field} (h : whole.Sound lists) (hafter : whole.clear = .ok after) :
    after.Sound lists := by
  fun_induction Field.clear whole generalizing after with
  | case1 label element items =>
    cases hafter
    exact sound_array_iff.2 ⟨Value.sound_of_inside rfl trivial, (sound_array_iff.1 h).2⟩
  | case2 label element innerLabel innerElement inner ih =>
    obtain ⟨hinner, hlabel⟩ := sound_array_iff.1 h
    obtain ⟨changed, hchanged, rfl⟩ := map_eq_ok.1 hafter
    exact sound_array_iff.2 ⟨ih hinner hchanged, hlabel⟩
  | case3 => cases hafter

end Field.Sound

/-! ## Use -/

theorem useAll_eq (use : Use) (items : List Value) :
    Value.useAll use items = items.map (Value.use use) := by
  induction items with
  | nil => rfl
  | cons item rest ih => rw [Value.useAll, ih, List.map_cons]

theorem length_useParts (use : Use) (stored entered : List Nat) (place : Nat)
    (parts : List Field) :
    (Field.useParts use stored entered place parts).length = parts.length := by
  induction parts generalizing place with
  | nil => rfl
  | cons part rest ih => rw [Field.useParts, List.length_cons, ih, List.length_cons]

/-- What holds of the parts, used or not and held or not, holds of them after an operation. -/
theorem forall_mem_useParts {p : Field → Prop} {use : Use} {stored entered : List Nat} {place : Nat}
    {parts : List Field} (h : ∀ part ∈ parts, p part ∧ p (part.use use))
    (hhold : ∀ part, p part → p part.hold) :
    ∀ part ∈ Field.useParts use stored entered place parts, p part := by
  induction parts generalizing place with
  | nil => simp [Field.useParts]
  | cons part rest ih =>
    obtain ⟨⟨hpart, hused⟩, hrest⟩ := List.forall_mem_cons.1 h
    refine List.forall_mem_cons.2 ⟨?_, ih hrest⟩
    have hentered : p (if entered.contains place then part.use use else part) := by
      split <;> assumption
    split
    · exact hhold _ hentered
    · exact hentered

/-- Fields can be used. -/
theorem Value.Sound.use (h : value.Sound lists) (use : Use) : (value.use use).Sound lists := by
  induction h with
  | @intro value hfits hinside ih =>
    have hvalue := Sound.intro hfits hinside
    have hchosen {inner : Value} (hmem : inner ∈ value.inside) :
        (if use.values then inner.use use else inner).Sound lists := by
      split
      · exact ih inner hmem
      · exact hinside inner hmem
    cases value with
    | list items =>
      rw [Value.use, useAll_eq]
      exact sound_list_iff.2 (List.forall_mem_map.2 ih)
    | field whole =>
      cases whole with
      | number =>
        exact Field.sound_number_iff.2
          ⟨hchosen List.mem_cons_self, (Field.sound_number_iff.1 hvalue).2⟩
      | octets => exact hvalue
      | array =>
        exact Field.sound_array_iff.2
          ⟨ih _ List.mem_cons_self, (Field.sound_array_iff.1 hvalue).2⟩
      | plain =>
        exact Field.sound_plain_iff.2
          ⟨hchosen List.mem_cons_self, (Field.sound_plain_iff.1 hvalue).2⟩
      | record label kind parts =>
        obtain ⟨hfits, hparts, hlabel⟩ := Field.sound_record_iff.1 hvalue
        refine Field.sound_record_iff.2
          ⟨hfits.of_length (length_useParts _ _ _ _ _), ?_, hlabel⟩
        refine forall_mem_useParts (fun part hmem => ⟨hparts part hmem, ?_⟩)
          fun part hpart => hpart.hold
        exact ih (.field part) (List.mem_append_left _ (List.mem_map_of_mem hmem))
    | _ => exact hvalue

/-! ## Packing -/

/-- The values of an array go on to be sound if packing keeps each one sound. -/
theorem sound_packElements {pack : List Value → List Value → Field → Packed}
    (hpack : ∀ before rest item, item.Sound lists → (pack before rest item).2.Sound lists)
    {before items : List Value} (hbefore : ∀ item ∈ before, item.Sound lists)
    (hitems : ∀ item ∈ items, item.Sound lists) :
    ∀ item ∈ (packElements pack before items).2, item.Sound lists := by
  fun_induction packElements pack before items with
  | case1 => exact hbefore
  | case2 before item rest fault after hfault =>
    obtain ⟨hitem, hrest⟩ := List.forall_mem_cons.1 hitems
    have hafter : after.Sound lists := by simpa [hfault] using hpack before rest item hitem
    exact List.forall_mem_append.2 ⟨hbefore, List.forall_mem_cons.2 ⟨hafter, hrest⟩⟩
  | case3 before item rest octets after hoctets more items hmore ih =>
    obtain ⟨hitem, hrest⟩ := List.forall_mem_cons.1 hitems
    have hafter : after.Sound lists := by simpa [hoctets] using hpack before rest item hitem
    have hall := ih (List.forall_mem_append.2 ⟨hbefore, List.forall_mem_singleton.2 hafter⟩) hrest
    rwa [hmore] at hall
  | case4 => exact List.forall_mem_append.2 ⟨hbefore, hitems⟩

/-- The parts of a record go on to be sound if packing keeps each one sound. -/
theorem sound_packPlaces {pack : Nat → List Field → Field → Packed}
    (hpack : ∀ place parts part, part.Sound lists → (pack place parts part).2.Sound lists)
    (places : List Nat) {parts : List Field} (hparts : ∀ part ∈ parts, part.Sound lists) :
    (packPlaces pack places parts).2.length = parts.length ∧
      ∀ part ∈ (packPlaces pack places parts).2, part.Sound lists := by
  fun_induction packPlaces pack places parts with
  | case1 => exact ⟨rfl, hparts⟩
  | case2 place rest parts hnone ih => exact ih hparts
  | case3 place rest parts part hpart fault after hfault =>
    have hafter : after.Sound lists := by
      simpa [hfault] using hpack place parts part (hparts part (List.mem_of_getElem? hpart))
    exact ⟨List.length_set, forall_mem_set hparts hafter⟩
  | case4 place rest parts part hpart octets after hoctets more others hmore ih =>
    have hafter : after.Sound lists := by
      simpa [hoctets] using hpack place parts part (hparts part (List.mem_of_getElem? hpart))
    have hall := ih (forall_mem_set hparts hafter)
    rwa [hmore, List.length_set] at hall

/-- Fields can be packed. -/
theorem Field.Sound.packWithin (h : whole.Sound lists) (bound : Nat) (around : Surroundings) :
    (whole.packWithin bound around).2.Sound lists := by
  fun_induction Field.packWithin bound around whole with
  | case4 _ _ label role format order choices =>
    exact sound_number_iff.2 ⟨Value.sound_of_inside rfl trivial, (sound_number_iff.1 h).2⟩
  | case5 around bound label element items pack packed after heq _ ih =>
    obtain ⟨hitems, hlabel⟩ := sound_array_iff.1 h
    have hafter := sound_packElements ih (List.forall_mem_nil _) (Value.sound_list_iff.1 hitems)
    rw [heq] at hafter
    exact sound_array_iff.2 ⟨Value.sound_list_iff.2 hafter, hlabel⟩
  | case6 around bound label element innerLabel innerElement inner packed after heq _ ih =>
    obtain ⟨hinner, hlabel⟩ := sound_array_iff.1 h
    rw [heq] at ih
    exact sound_array_iff.2 ⟨ih hinner, hlabel⟩
  | case7 around bound label kind parts pack packed after heq _ ih =>
    obtain ⟨hfits, hparts, hlabel⟩ := sound_record_iff.1 h
    obtain ⟨hsame, hafter⟩ := sound_packPlaces ih kind.order hparts
    rw [heq] at hsame hafter
    exact sound_record_iff.2 ⟨hfits.of_length hsame, hafter, hlabel⟩
  | _ => exact h

end ScriptedPng.Record
