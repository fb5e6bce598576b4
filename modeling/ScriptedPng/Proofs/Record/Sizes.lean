import Mathlib.Algebra.GroupWithZero.Nat
import ScriptedPng.Proofs.Record.Nested

/-!
# Sizes of fields that are packed

The size of a field is found out from the sizes of its parts, and its octets from theirs. Where both
are known they agree, and packing changes neither the size nor the number of octets: it only puts
numbers in the place of numbers of the same format. A record that stores a part twice packs it
twice, and so the octets that come of it need not be those it has afterwards; if each part is stored
once, they are.

## Main definitions

* `Field.extent` — the number of octets of a field as it stands.
* `Field.StoresOnce` — no part of a record is stored twice.

## Main statements

* `Field.size_eq_extent` — the size of a field is the number of octets that it has.
* `Field.size_of_packWithin` — a field is packed to as many octets as its size says.
* `Field.raw_of_packWithin` — a field whose parts are stored once is packed to the octets it has
  then.
-/

namespace ScriptedPng.Record

/-! ## Results that are all there -/

theorem collect_eq_ok {α : Type} {items : List (Except Fault α)} {values : List α} :
    collect items = .ok values ↔ items = values.map .ok := by
  induction items generalizing values with
  | nil => cases values <;> simp
  | cons item rest ih =>
    cases item with
    | error fault => cases values <;> simp
    | ok value =>
      rw [collect_ok_cons]
      cases hrest : collect rest with
      | error fault =>
        have hnone (values : List α) : rest ≠ values.map .ok := fun h => by simp [ih.2 h] at hrest
        cases values <;> simp [Except.map, hnone]
      | ok more =>
        cases values with
        | nil => simp [Except.map]
        | cons found values => simp [Except.map, ← ih, hrest]

/-- Results that are all there, one by one. -/
theorem map_eq_map_ok {α β : Type} {f : α → Except Fault β} {items : List α} {values : List β} :
    items.map f = values.map .ok ↔
      List.Forall₂ (fun item value => f item = .ok value) items values := by
  rw [← List.forall₂_eq_eq_eq, List.forall₂_map_left_iff, List.forall₂_map_right_iff]

/-- What is made of results that are all there. -/
theorem collect_map_eq_ok {α β : Type} {items : List (Except Fault α)} {f : List α → β} {b : β} :
    (collect items).map f = .ok b ↔ ∃ values : List α, items = values.map .ok ∧ f values = b := by
  cases hitems : collect items with
  | error fault =>
    have hnone (values : List α) : items ≠ values.map .ok := fun h => by
      simp [collect_eq_ok.2 h] at hitems
    simp [Except.map, hnone]
  | ok values =>
    obtain rfl := collect_eq_ok.1 hitems
    refine ⟨fun h => ⟨values, rfl, Except.ok.inj h⟩, ?_⟩
    rintro ⟨others, hothers, rfl⟩
    obtain rfl : values = others :=
      List.map_injective_iff.2 (fun _ _ => Except.ok.inj) hothers
    rfl

theorem total_eq_sum : total = List.sum := rfl

/-- The length of octets that are all known. -/
theorem length_collect (raws : List (Except Fault Octets)) :
    ((collect raws).map List.flatten).map List.length =
      (collect (raws.map (·.map List.length))).map List.sum := by
  induction raws with
  | nil => rfl
  | cons raw rest ih =>
    cases raw with
    | error fault => simp [Except.map]
    | ok octets =>
      have hmap : (Except.ok octets : Except Fault Octets).map List.length = .ok octets.length :=
        rfl
      rw [List.map_cons, hmap, collect_ok_cons, collect_ok_cons]
      cases hrest : collect rest <;>
        cases hlengths : collect (rest.map (·.map List.length)) <;>
        simp_all [Except.map]

namespace Field

/-! ## Sizes and octets -/

/-- The number of octets of a field as it stands. -/
def extent (field : Field) : Except Fault Nat :=
  field.raw.map List.length

theorem extent_of_raw {field : Field} {octets : Octets} (h : field.raw = .ok octets) :
    field.extent = .ok octets.length := by
  rw [extent, h]
  rfl

/-- A number that has octets has as many as its format says. -/
theorem length_of_numberRaw {format : IntegerFormat} {order : ByteOrder}
    {choices : Option Enumeration} {value : Value} {octets : Octets}
    (h : numberRaw format order choices value = .ok octets) : octets.length = format.width := by
  obtain ⟨number?, hnumber⟩ := Steady.numberRaw_eq format order choices value
  rw [hnumber] at h
  split at h
  · rename_i found hfound
    cases h
    obtain ⟨n, -, hn⟩ := Option.bind_eq_some_iff.1 hfound
    exact IntegerFormat.length_encode? hn
  · cases h

theorem size_record_eq_ok {label : Label} {kind : RecordKind} {parts : List Field} {n : Nat} :
    (record label kind parts).size = .ok n ↔ kind.hides .size = false ∧
      ∃ ns : List Nat, kind.inOrder (parts.map size) = ns.map .ok ∧ ns.sum = n := by
  rw [size, sizes_eq, total_eq_sum, ← collect_map_eq_ok]
  cases kind.hides .size <;> simp

theorem raw_record_eq_ok {label : Label} {kind : RecordKind} {parts : List Field}
    {octets : Octets} : (record label kind parts).raw = .ok octets ↔
      kind.hides .raw = false ∧ ∃ raws : List Octets,
        (kind.inOrder parts).map raw = raws.map .ok ∧ raws.flatten = octets := by
  rw [raw, raws_eq, inOrder_map, ← collect_map_eq_ok]
  cases kind.hides .raw <;> simp

theorem raw_array_eq_ok {label : Label} {element : ClassRef} {items : List Field}
    {octets : Octets} : (array label element (.list (items.map .field))).raw = .ok octets ↔
      ∃ raws : List Octets, items.map raw = raws.map .ok ∧ raws.flatten = octets := by
  rw [raw, Value.rawElements, valueRaws_map_field, collect_map_eq_ok]

theorem extent_record_eq_ok {label : Label} {kind : RecordKind} {parts : List Field} {n : Nat} :
    (record label kind parts).extent = .ok n ↔ kind.hides .raw = false ∧
      ∃ ns : List Nat, kind.inOrder (parts.map extent) = ns.map .ok ∧ ns.sum = n := by
  have hlengths : kind.inOrder (parts.map extent) =
      (kind.inOrder (parts.map raw)).map (·.map List.length) := by
    rw [← inOrder_map, List.map_map]
    rfl
  rw [extent, raw, raws_eq, hlengths, ← collect_map_eq_ok, ← length_collect]
  cases kind.hides .raw <;> simp [Except.map]

theorem extent_array_eq_ok {label : Label} {element : ClassRef} {items : List Field} {n : Nat} :
    (array label element (.list (items.map .field))).extent = .ok n ↔
      ∃ ns : List Nat, items.map extent = ns.map .ok ∧ ns.sum = n := by
  rw [extent, raw, Value.rawElements, valueRaws_map_field, length_collect, collect_map_eq_ok,
    List.map_map]
  rfl

/-- The octets of an array around an array are those of the inner one. -/
theorem raw_array_of_array (label innerLabel : Label) (element innerElement : ClassRef)
    (value : Value) : (array label element (.field (array innerLabel innerElement value))).raw =
      (array innerLabel innerElement value).raw := by
  simp only [raw, Value.rawElements]

theorem extent_array_of_array (label innerLabel : Label) (element innerElement : ClassRef)
    (value : Value) : (array label element (.field (array innerLabel innerElement value))).extent =
      (array innerLabel innerElement value).extent := by
  rw [extent, raw_array_of_array, extent]

/-- Two ways to measure fields agree on what they both measure. -/
theorem eq_of_map_eq_ok {f g : Field → Except Fault Nat} {fields : List Field} {ns ms : List Nat}
    (hagree : ∀ field ∈ fields, ∀ n m, f field = .ok n → g field = .ok m → n = m)
    (hf : fields.map f = ns.map .ok) (hg : fields.map g = ms.map .ok) : ns = ms := by
  induction fields generalizing ns ms with
  | nil =>
    obtain rfl : ns = [] := by simpa using hf.symm
    obtain rfl : ms = [] := by simpa using hg.symm
    rfl
  | cons field rest ih =>
    obtain ⟨n, ns, rfl⟩ : ∃ n ns', ns = n :: ns' :=
      List.exists_cons_of_ne_nil (by rintro rfl; simp at hf)
    obtain ⟨m, ms, rfl⟩ : ∃ m ms', ms = m :: ms' :=
      List.exists_cons_of_ne_nil (by rintro rfl; simp at hg)
    simp only [List.map_cons, List.cons.injEq] at hf hg
    rw [hagree field List.mem_cons_self n m hf.1 hg.1,
      ih (fun field hmem => hagree field (List.mem_cons_of_mem _ hmem)) hf.2 hg.2]

/-- The size of a field is the number of its octets, where both are known. -/
theorem size_eq_extent {field : Field} {n m : Nat} (hsize : field.size = .ok n)
    (hextent : field.extent = .ok m) : n = m := by
  induction field using inner_induction generalizing n m with
  | h field ih =>
    cases field with
    | number label role format order choices value =>
      cases hraw : numberRaw format order choices value with
      | error fault => simp [extent, raw, hraw, Except.map] at hextent
      | ok octets =>
        simp only [extent, raw, hraw, Except.map, Except.ok.injEq] at hextent
        rw [← hextent, length_of_numberRaw hraw]
        exact (Except.ok.inj hsize).symm
    | octets label length value => exact Except.ok.inj (hsize.symm.trans hextent)
    | array label element value => exact Except.ok.inj (hsize.symm.trans hextent)
    | plain label value => cases hsize
    | record label kind parts =>
      obtain ⟨-, ns, hns, rfl⟩ := size_record_eq_ok.1 hsize
      obtain ⟨-, ms, hms, rfl⟩ := extent_record_eq_ok.1 hextent
      rw [inOrder_map] at hns hms
      rw [eq_of_map_eq_ok (fun part hmem n m => ih part hmem) hns hms]

/-! ## Packing keeps sizes -/

/-- A part is packed to as many octets as it has been measured to have, and goes on to have. -/
theorem sum_of_packPlaces {m : Field → Except Fault Nat}
    {pack : Nat → List Field → Field → Packed}
    (hpack : ∀ place parts part octets after n, pack place parts part = (.ok octets, after) →
      m part = .ok n → octets.length = n ∧ m after = .ok n)
    {places : List Nat} {parts after : List Field} {octets : Octets} {ns : List Nat}
    (h : packPlaces pack places parts = (.ok octets, after))
    (hns : places.filterMap (fun place => (parts.map m)[place]?) = ns.map .ok) :
    octets.length = ns.sum ∧ after.map m = parts.map m := by
  induction places generalizing parts octets ns with
  | nil =>
    cases h
    obtain rfl : ns = [] := by simpa using hns.symm
    exact ⟨rfl, rfl⟩
  | cons place rest ih =>
    obtain ⟨hnone, hrest⟩ | ⟨part, piece, packed, more, hpart, hpacked, hrest, rfl⟩ :=
      packPlaces_cons_eq_ok h
    · exact ih hrest (by rwa [List.filterMap_cons_none (by simp [hnone])] at hns)
    · have hmeasured : (parts.map m)[place]? = some (m part) := by simp [hpart]
      rw [List.filterMap_cons_some hmeasured] at hns
      cases ns with
      | nil => cases hns
      | cons n ns =>
        obtain ⟨hpartSize, hns⟩ := List.cons.inj hns
        obtain ⟨hpiece, hafter⟩ := hpack place parts part piece packed n hpacked hpartSize
        have hsame : (parts.set place packed).map m = parts.map m := by
          rw [List.map_set, hafter, ← hpartSize, set_eq_self hmeasured]
        obtain ⟨hmore, hkept⟩ := ih hrest (hsame ▸ hns)
        rw [List.length_append, List.sum_cons, hpiece, hmore]
        exact ⟨rfl, hkept.trans hsame⟩

/-- The elements of an array are packed to as many octets as they have, and go on to have. -/
theorem sum_of_packed {entries : List PackedField} {ns : List Nat}
    (hentries : ∀ entry ∈ entries, ∀ n, entry.given.extent = .ok n →
      entry.octets.length = n ∧ entry.after.extent = .ok n)
    (hns : (entries.map PackedField.given).map extent = ns.map .ok) :
    (entries.map PackedField.octets).flatten.length = ns.sum ∧
      (entries.map PackedField.after).map extent = ns.map .ok := by
  induction entries generalizing ns with
  | nil =>
    obtain rfl : ns = [] := by simpa using hns.symm
    exact ⟨rfl, rfl⟩
  | cons entry rest ih =>
    cases ns with
    | nil => cases hns
    | cons n ns =>
      obtain ⟨hsize, hns⟩ := List.cons.inj hns
      obtain ⟨hlength, hafter⟩ := hentries entry List.mem_cons_self n hsize
      obtain ⟨hrest, hkept⟩ :=
        ih (fun entry hmem => hentries entry (List.mem_cons_of_mem _ hmem)) hns
      simp only [List.map_cons, List.flatten_cons, List.length_append, List.sum_cons, hlength,
        hrest, hafter, hkept, true_and]

/-- Packing keeps the number of octets that a field has. -/
theorem extent_of_packWithin {bound : Nat} {around : Surroundings} {field after : Field}
    {octets : Octets} {n : Nat} (h : field.packWithin bound around = (.ok octets, after))
    (hn : field.extent = .ok n) : octets.length = n ∧ after.extent = .ok n := by
  induction bound using Nat.strongRecOn generalizing around field after octets n with
  | ind bound ih =>
    cases (packs_of_packWithin h).2 with
    | plain _ _ hraw => exact ⟨Except.ok.inj ((extent_of_raw hraw).symm.trans hn), hn⟩
    | @number _ _ label role format order choices value found _ _ hraw =>
      have hextent {value : Value} {octets : Octets}
          (hvalue : numberRaw format order choices value = .ok octets) :
          (number label role format order choices value).extent = .ok format.width :=
        length_of_numberRaw hvalue ▸ extent_of_raw hvalue
      cases hvalue : numberRaw format order choices value with
      | error fault => simp [extent, raw, hvalue, Except.map] at hn
      | ok given =>
        obtain rfl : format.width = n := Except.ok.inj ((hextent hvalue).symm.trans hn)
        exact ⟨length_of_numberRaw hraw, hextent hraw⟩
    | @elements bound _ _ _ _ _ _ hitems =>
      obtain ⟨entries, rfl, rfl, rfl, hentries⟩ := exists_of_packElements hitems
      obtain ⟨ns, hns, rfl⟩ := extent_array_eq_ok.1 hn
      obtain ⟨hlength, hkept⟩ := sum_of_packed (fun entry hmem n => by
        obtain ⟨before, rest, hpacked⟩ := hentries entry hmem
        exact ih bound (Nat.lt_succ_self _) hpacked) hns
      exact ⟨hlength, extent_array_eq_ok.2 ⟨ns, hkept, rfl⟩⟩
    | @content bound _ _ _ _ _ _ _ _ hinner =>
      obtain ⟨packed, rfl⟩ := exists_of_packWithin_array hinner
      rw [extent_array_of_array] at hn ⊢
      exact ih bound (Nat.lt_succ_self _) hinner hn
    | @parts bound _ _ kind parts _ _ hparts =>
      obtain ⟨hhides, ns, hns, rfl⟩ := extent_record_eq_ok.1 hn
      obtain ⟨hlength, hkept⟩ := sum_of_packPlaces
        (fun place parts part octets after n hpacked => ih bound (Nat.lt_succ_self _) hpacked)
        hparts hns
      exact ⟨hlength, extent_record_eq_ok.2 ⟨hhides, ns, by rw [hkept, hns], rfl⟩⟩

/-- A field is packed to as many octets as its size says, which it keeps. -/
theorem size_of_packWithin {bound : Nat} {around : Surroundings} {field after : Field}
    {octets : Octets} {n : Nat} (h : field.packWithin bound around = (.ok octets, after))
    (hn : field.size = .ok n) : octets.length = n ∧ after.size = .ok n := by
  induction bound using Nat.strongRecOn generalizing around field after octets n with
  | ind bound ih =>
    cases (packs_of_packWithin h).2 with
    | plain _ _ hraw => exact ⟨(size_eq_extent hn (extent_of_raw hraw)).symm, hn⟩
    | number _ hraw => exact ⟨(length_of_numberRaw hraw).trans (Except.ok.inj hn), hn⟩
    | elements => exact extent_of_packWithin h hn
    | content hinner =>
      obtain ⟨packed, rfl⟩ := exists_of_packWithin_array hinner
      exact extent_of_packWithin h hn
    | @parts bound _ _ kind parts _ _ hparts =>
      obtain ⟨hhides, ns, hns, rfl⟩ := size_record_eq_ok.1 hn
      obtain ⟨hlength, hkept⟩ := sum_of_packPlaces
        (fun place parts part octets after n hpacked => ih bound (Nat.lt_succ_self _) hpacked)
        hparts hns
      exact ⟨hlength, size_record_eq_ok.2 ⟨hhides, ns, by rw [hkept, hns], rfl⟩⟩

/-! ## Octets of parts that are stored once -/

/-- No part of the record is stored twice. -/
def StoresOnce : Field → Prop
  | record _ kind _ => kind.order.Nodup
  | _ => True

/-- Pieces that are the octets of fields make up the octets of all of them. -/
theorem collect_pieces {fields : List Field} {pieces raws : List Octets}
    (hpieces : List.Forall₂ (fun field piece => ∀ octets, field.raw = .ok octets → octets = piece)
      fields pieces) (hraws : fields.map raw = raws.map .ok) : raws = pieces := by
  induction hpieces generalizing raws with
  | nil => simpa using hraws.symm
  | cons hpiece _ ih =>
    cases raws with
    | nil => cases hraws
    | cons octets raws =>
      obtain ⟨hraw, hraws⟩ := List.cons.inj hraws
      rw [hpiece octets hraw, ih hraws]

/-- If every part in a field is stored once, the field is packed to the octets that it has then. -/
theorem raw_of_packWithin {bound : Nat} {around : Surroundings} {field after : Field}
    {octets found : Octets} (honce : ∀ outer, field.Within outer → outer.StoresOnce)
    (h : field.packWithin bound around = (.ok octets, after)) (hraw : after.raw = .ok found) :
    found = octets := by
  induction bound using Nat.strongRecOn generalizing around field after octets found with
  | ind bound ih =>
    cases (packs_of_packWithin h).2 with
    | plain _ _ hfield => exact Except.ok.inj (hraw.symm.trans hfield)
    | number _ hnumber => exact Except.ok.inj (hraw.symm.trans hnumber)
    | @elements bound _ _ _ _ _ _ hitems =>
      obtain ⟨entries, rfl, rfl, rfl, hentries⟩ := exists_of_packElements hitems
      obtain ⟨raws, hraws, rfl⟩ := raw_array_eq_ok.1 hraw
      rw [collect_pieces ?_ hraws]
      rw [List.forall₂_map_left_iff, List.forall₂_map_right_iff, List.forall₂_same]
      intro entry hmem octets
      obtain ⟨before, rest, hpacked⟩ := hentries entry hmem
      exact ih bound (Nat.lt_succ_self _) (Within.forall_of_mem honce
        (by rw [inner, Value.filterMap_field?]; exact List.mem_map_of_mem hmem)) hpacked
    | @content bound _ _ _ _ _ _ _ _ hinner =>
      obtain ⟨packed, rfl⟩ := exists_of_packWithin_array hinner
      rw [raw_array_of_array] at hraw
      exact ih bound (Nat.lt_succ_self _)
        (Within.forall_of_mem honce (List.mem_singleton_self _)) hinner hraw
    | @parts bound _ _ kind parts after _ hparts =>
      obtain ⟨pieces, rfl, hpieces⟩ := packPlaces_pieces
        (p := fun field piece => ∀ octets, field.raw = .ok octets → octets = piece)
        (honce _ .refl) hparts
        fun place hplace seen part piece packed hpart hpacked octets =>
          ih bound (Nat.lt_succ_self _) (Within.forall_of_mem honce
            (List.mem_filterMap.2 ⟨place, hplace, hpart⟩)) hpacked
      obtain ⟨-, raws, hraws, rfl⟩ := raw_record_eq_ok.1 hraw
      rw [collect_pieces hpieces hraws]

end Field

end ScriptedPng.Record
