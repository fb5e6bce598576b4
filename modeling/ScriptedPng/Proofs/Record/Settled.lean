import ScriptedPng.Proofs.Record.Reached

/-!
# Packing settles the numbers

Numbers that depend on other fields are brought up to date one after the other while a field is
packed, from parts that may depend on others themselves. Where sizes are those of parts that are
stored, and checksums cover parts that are stored before them, no number is out of date in the end:
packing changes no size, and nothing that a checksum has covered changes behind it. So the octets
are those that the field has then, and packing it once more changes nothing.

All this is about numbers that belong to the record they are in. One that has been made to belong to
another record is found there, and need not be right where it is.

## Main definitions

* `Field.Orderly` — the numbers packed with a field refer to parts of it in this way.
* `Field.Agrees` — a number is what its role makes it.
* `Field.Settled` — all numbers in a field are.
* `Field.Rests` — what is true of a field and its octets after packing.

## Main statements

* `Field.finds_size`, `Field.finds_checksum` — what a number finds when it is packed, it finds in
  the end.
* `Field.settled_of_pack` — packing settles a field that is orderly in all its depth.
* `Field.not_settled_estranged` — a number that belongs to another record is not settled.
-/

namespace ScriptedPng.Record

/-! ## Numbers that refer to parts -/

/-- In a record of the kind, the name stands for the part at the place. -/
structure Denotes (label : Label) (kind : RecordKind) (name : String) (place : Nat) : Prop where
  shown : (label.lookup name).isNone
  mem : name ∈ kind.names
  place_eq : kind.names.idxOf name = place

instance (label : Label) (kind : RecordKind) (name : String) (place : Nat) :
    Decidable (Denotes label kind name place) :=
  decidable_of_iff
    ((label.lookup name).isNone ∧ name ∈ kind.names ∧ kind.names.idxOf name = place)
    ⟨fun ⟨hshown, hmem, hplace⟩ => ⟨hshown, hmem, hplace⟩, fun h => ⟨h.1, h.2, h.3⟩⟩

/-- The places of the parts that are stored before the one at a place. -/
def RecordKind.before (kind : RecordKind) (place : Nat) : List Nat :=
  kind.order.takeWhile (· ≠ place)

theorem RecordKind.before_eq {kind : RecordKind} {front back : List Nat} {place : Nat}
    (hnodup : kind.order.Nodup) (horder : kind.order = front ++ place :: back) :
    kind.before place = front := by
  rw [horder] at hnodup
  have hne : ∀ other ∈ front, other ≠ place := by
    rintro _ hother rfl
    exact (List.nodup_append.1 hnodup).2.2 _ hother _ List.mem_cons_self rfl
  rw [before, horder, List.takeWhile_append_of_pos (by simpa using hne)]
  simp

/-- A number at a place of a record can be found: a size is that of a part that is stored, and a
checksum covers parts that are stored before it. -/
def Role.Found (label : Label) (kind : RecordKind) (place : Nat) : Role → Prop
  | .stored => True
  | .sizeOf name => ∃ other ∈ kind.order, Denotes label kind name other
  | .checksumOf names =>
    ∀ name ∈ names, ∃ earlier ∈ kind.before place, Denotes label kind name earlier

instance (label : Label) (kind : RecordKind) (place : Nat) :
    DecidablePred (Role.Found label kind place)
  | .stored => .isTrue trivial
  | .sizeOf name =>
    inferInstanceAs (Decidable (∃ other ∈ kind.order, Denotes label kind name other))
  | .checksumOf names => inferInstanceAs (Decidable
      (∀ name ∈ names, ∃ earlier ∈ kind.before place, Denotes label kind name earlier))

namespace Field

/-- The parts of a record are stored in such an order that its numbers can be found. -/
structure OrderlyParts (label : Label) (kind : RecordKind) (parts : List Field) : Prop where
  /-- No part is stored twice. -/
  once : kind.order.Nodup
  /-- No part takes the place of an attribute. -/
  free : ∀ what ∈ Attribute.all, what.word ∉ kind.names
  /-- The parts that are numbers can be found where they are stored. -/
  found : ∀ place ∈ kind.order, ∀ part ∈ parts[place]?, part.role.Found label kind place
  /-- No number that depends on other fields has been made to belong to something else. -/
  own : ∀ place ∈ kind.order, ∀ part ∈ parts[place]?, part.role ≠ .stored →
    part.label.father? = none

/-- The numbers packed with a field can be found: those of a record from its parts, and those of an
array without any. -/
def Orderly : Field → Prop
  | record label kind parts => OrderlyParts label kind parts
  | field => ∀ item ∈ field.inner, item.role.names = []

instance (label : Label) (kind : RecordKind) (parts : List Field) :
    Decidable (OrderlyParts label kind parts) :=
  decidable_of_iff (kind.order.Nodup ∧ (∀ what ∈ Attribute.all, what.word ∉ kind.names) ∧
      (∀ place ∈ kind.order, ∀ part ∈ parts[place]?, part.role.Found label kind place) ∧
      ∀ place ∈ kind.order, ∀ part ∈ parts[place]?, part.role ≠ .stored →
        part.label.father?.isNone)
    ⟨fun ⟨honce, hfree, hfound, hown⟩ => ⟨honce, hfree, hfound, by simpa using hown⟩,
      fun h => ⟨h.1, h.2, h.3, by simpa using h.4⟩⟩

instance : DecidablePred Orderly
  | record label kind parts => inferInstanceAs (Decidable (OrderlyParts label kind parts))
  | number label role format order choices value => inferInstanceAs (Decidable
      (∀ item ∈ (number label role format order choices value).inner, item.role.names = []))
  | octets label length value => inferInstanceAs (Decidable
      (∀ item ∈ (octets label length value).inner, item.role.names = []))
  | array label element value => inferInstanceAs (Decidable
      (∀ item ∈ (array label element value).inner, item.role.names = []))
  | plain label value => inferInstanceAs (Decidable
      (∀ item ∈ (plain label value).inner, item.role.names = []))

/-- The name stands for a field with these octets. -/
def Shows (outer : Field) (name : String) (octets : Octets) : Prop :=
  ∃ target, outer.find? name = some (.field target) ∧ target.raw = .ok octets

/-- The field, a number, is what its role makes it within the outer field. -/
def Agrees (outer : Field) : Field → Prop
  | number _ (.sizeOf name) _ _ _ value =>
    ∃ octets, outer.Shows name octets ∧ value = .integer octets.length
  | number _ (.checksumOf names) _ _ _ value =>
    ∃ covered, List.Forall₂ outer.Shows names covered ∧
      value = .integer (Checksum.crc32 covered.flatten).toNat
  | _ => True

/-- Every number packed with the field, however deep, is what its role makes it. -/
def Settled (whole : Field) : Prop :=
  ∀ outer, whole.Within outer → ∀ part ∈ outer.inner, outer.Agrees part

theorem agrees_of_role {outer field : Field} (h : field.role = .stored) : outer.Agrees field := by
  cases field with
  | number label role =>
    obtain rfl : role = .stored := h
    trivial
  | _ => trivial

theorem Settled.of_inner {whole : Field} (hagrees : ∀ part ∈ whole.inner, whole.Agrees part)
    (hinner : ∀ part ∈ whole.inner, part.Settled) : whole.Settled :=
  Within.forall_of_inner hagrees hinner

/-- The field has these octets, and all its numbers are what their roles make them. -/
structure Rests (field : Field) (octets : Octets) : Prop where
  raw : field.raw = .ok octets
  size : field.size = .ok octets.length
  settled : field.Settled

/-- Packing the field gives these octets and changes nothing, in any surroundings that give it the
number given, if it is one that depends on others. -/
def Stays (field : Field) (found : Except Fault (Option Nat)) (octets : Octets) : Prop :=
  ∀ bound around, field.depth ≤ bound → field.role.dependent around = found →
    field.packWithin bound around = (.ok octets, field)

/-- Packing the field, with so deep a bound, settles it. -/
def Settles (field : Field) (bound : Nat) : Prop :=
  ∀ around octets after, field.packWithin bound around = (.ok octets, after) →
    after.Rests octets ∧ after.Stays (field.role.dependent around) octets

end Field

/-! ## Dependence on other fields -/

namespace Role

theorem dependent_sizeOf_eq_ok {around : Surroundings} {name : String} {found : Option Nat} :
    (Role.sizeOf name).dependent around = .ok found ↔
      ∃ target n, around.refer name = some target ∧ target.size = .ok n ∧ some n = found := by
  simp only [dependent, Surroundings.get]
  cases hrefer : around.refer name with
  | none => simp [bind, Except.bind]
  | some target =>
    cases hsize : target.size <;>
      simp [bind, Except.bind, pure, Except.pure, hsize]

theorem dependent_checksumOf_eq_ok {around : Surroundings} {names : List String}
    {found : Option Nat} : (Role.checksumOf names).dependent around = .ok found ↔
      ∃ covered, List.Forall₂ (fun name octets => ∃ target, around.refer name = some target ∧
        target.raw = .ok octets) names covered ∧
      some (Checksum.crc32 covered.flatten).toNat = found := by
  have hraw (name : String) (octets : Octets) : (do (← around.get name).raw) = .ok octets ↔
      ∃ target, around.refer name = some target ∧ target.raw = .ok octets := by
    cases hrefer : around.refer name <;> simp [Surroundings.get, hrefer, bind, Except.bind]
  have hdependent : (Role.checksumOf names).dependent around =
      (collect (names.map fun name => do (← around.get name).raw)).map fun covered =>
        some (Checksum.crc32 covered.flatten).toNat := by
    rw [dependent]
    cases collect _ <;> rfl
  simp only [hdependent, collect_map_eq_ok, map_eq_map_ok, hraw]

/-- A number that depends on nothing is the same everywhere. -/
theorem dependent_of_names_eq_nil {role : Role} (h : role.names = []) (around : Surroundings) :
    role.dependent around = role.dependent {} := by
  cases role with
  | stored => rfl
  | sizeOf name => cases h
  | checksumOf names =>
    obtain rfl : names = [] := h
    rfl

end Role

/-- The name stands for the part at its place. -/
theorem Denotes.find?_eq {label : Label} {kind : RecordKind} {name : String} {place : Nat}
    (h : Denotes label kind name place) (parts : List Field) :
    (Field.record label kind parts).find? name = parts[place]?.map .field := by
  simp only [Field.find?, Field.label, Option.isNone_iff_eq_none.1 h.shown, Field.part?,
    Field.named?, h.place_eq]

/-- A part of a record refers to the other parts if it belongs to the record, and to nothing
else. -/
theorem Denotes.refer_eq {label : Label} {kind : RecordKind} {name : String} {other : Nat}
    (h : Denotes label kind name other) (hfree : ∀ what ∈ Attribute.all, what.word ∉ kind.names)
    {parts : List Field} {place : Nat} {part : Field} (hpart : parts[place]? = some part)
    (hown : part.label.father? = none) (around : Surroundings) :
    (Field.aroundPart around label kind place parts part).refer name =
      if part.label.owner.isSome then parts[other]? else none := by
  have hfather : name ≠ Attribute.father.word := fun hname =>
    hfree .father (by decide) (hname ▸ h.mem)
  rw [Field.aroundPart, Surroundings.within, set_eq_self hpart, hown]
  dsimp only
  split
  · simp only [Field.refer, h.find?_eq]
    cases parts[other]? <;> simp [hfather]
  · rfl

namespace Field

/-! ## Packing a record -/

section Parts

variable {bound : Nat} {around : Surroundings} {label : Label} {kind : RecordKind}
  {parts after : List Field} {octets : Octets}

/-- A part that is stored once has been packed when the parts before it had been. -/
theorem exists_seen (honce : kind.order.Nodup)
    (hparts : packPlaces (packPart bound around label kind) kind.order parts = (.ok octets, after))
    {front back : List Nat} {place : Nat} (horder : kind.order = front ++ place :: back)
    {part : Field} (hpart : parts[place]? = some part) :
    ∃ (seen : List Field) (piece : Octets) (packed : Field),
      part.packWithin bound (aroundPart around label kind place seen part) = (.ok piece, packed) ∧
      seen[place]? = some part ∧ after[place]? = some packed ∧
      (∀ other ∈ front, seen[other]? = after[other]?) ∧
      ∀ other, other ∉ front → seen[other]? = parts[other]? :=
  packPlaces_at (horder ▸ honce) (horder ▸ hparts) hpart

theorem exists_given
    (hparts : packPlaces (packPart bound around label kind) kind.order parts = (.ok octets, after))
    {place : Nat} {packed : Field} (hpacked : after[place]? = some packed) :
    ∃ part, parts[place]? = some part := by
  have hlt := (List.getElem?_eq_some_iff.1 hpacked).1
  rw [length_of_packPlaces hparts] at hlt
  exact ⟨_, List.getElem?_eq_getElem hlt⟩

/-- The size of a part, whether it has been packed by then or not, is that of its octets in the
end. -/
theorem exists_target (honce : kind.order.Nodup)
    (hparts : packPlaces (packPart bound around label kind) kind.order parts = (.ok octets, after))
    (hpack : ∀ part ∈ kind.inOrder parts, part.Settles bound)
    {place : Nat} (hplace : place ∈ kind.order) {target : Field} {n : Nat}
    (htarget : parts[place]? = some target ∨ after[place]? = some target)
    (hsize : target.size = .ok n) :
    ∃ found octets, after[place]? = some found ∧ found.raw = .ok octets ∧
      found.size = .ok octets.length ∧ octets.length = n := by
  obtain ⟨given, hgiven⟩ : ∃ given, parts[place]? = some given :=
    htarget.elim (fun h => ⟨target, h⟩) (exists_given hparts)
  obtain ⟨front, back, horder⟩ := List.append_of_mem hplace
  obtain ⟨seen, piece, found, hpacked, -, hafter, -, -⟩ := exists_seen honce hparts horder hgiven
  have hrests := (hpack given (List.mem_filterMap.2 ⟨place, hplace, hgiven⟩) _ _ _ hpacked).1
  refine ⟨found, piece, hafter, hrests.raw, hrests.size, ?_⟩
  rcases htarget with h | h
  · obtain rfl : given = target := Option.some.inj (hgiven.symm.trans h)
    exact (size_of_packWithin hpacked hsize).1
  · obtain rfl : found = target := Option.some.inj (hafter.symm.trans h)
    exact Except.ok.inj (hrests.size.symm.trans hsize)

section Numbers

variable {place : Nat} {seen : List Field} {part packed : Field} {found : Option Nat}

/-- The size that a number finds when it is packed is that of the part in the end, and it is found
then as well. -/
theorem finds_size (horderly : OrderlyParts label kind parts)
    (hparts : packPlaces (packPart bound around label kind) kind.order parts = (.ok octets, after))
    (hpack : ∀ part ∈ kind.inOrder parts, part.Settles bound)
    (hseen : seen[place]? = some part) (hafter : after[place]? = some packed)
    (hown : part.label.father? = none) (hlabel : packed.label = part.label) {name : String}
    {other : Nat}
    (hother : other ∈ kind.order) (hname : Denotes label kind name other)
    (hsame : seen[other]? = parts[other]? ∨ seen[other]? = after[other]?)
    (hrole : (Role.sizeOf name).dependent (aroundPart around label kind place seen part) =
      .ok found) :
    ∃ octets, (record label kind after).Shows name octets ∧ some octets.length = found ∧
      ∀ around : Surroundings, (Role.sizeOf name).dependent
        (aroundPart around label kind place after packed) = .ok found := by
  obtain ⟨target, n, hrefer, hsize, rfl⟩ := Role.dependent_sizeOf_eq_ok.1 hrole
  rw [hname.refer_eq horderly.free hseen hown] at hrefer
  obtain ⟨hheld, htarget⟩ := Option.ite_none_right_eq_some.1 hrefer
  have hfound : parts[other]? = some target ∨ after[other]? = some target :=
    hsame.imp (fun h => h.symm.trans htarget) fun h => h.symm.trans htarget
  obtain ⟨last, octets, hlast, hlastRaw, hlastSize, hlength⟩ :=
    exists_target horderly.once hparts hpack hother hfound hsize
  refine ⟨octets, ⟨last, by rw [hname.find?_eq, hlast]; rfl, hlastRaw⟩, congrArg some hlength,
    fun around => ?_⟩
  refine Role.dependent_sizeOf_eq_ok.2 ⟨last, _, ?_, hlastSize, congrArg some hlength⟩
  rw [hname.refer_eq horderly.free hafter (by rw [hlabel, hown]), hlabel, if_pos hheld, hlast]

/-- The octets that a checksum covers when it is packed are those of the parts in the end, and they
are found then as well. -/
theorem finds_checksum (hfree : ∀ what ∈ Attribute.all, what.word ∉ kind.names)
    (hseen : seen[place]? = some part) (hafter : after[place]? = some packed)
    (hown : part.label.father? = none) (hlabel : packed.label = part.label)
    {names : List String} {front : List Nat}
    (hnames : ∀ name ∈ names, ∃ earlier ∈ front, Denotes label kind name earlier)
    (hsame : ∀ earlier ∈ front, seen[earlier]? = after[earlier]?)
    (hrole : (Role.checksumOf names).dependent (aroundPart around label kind place seen part) =
      .ok found) :
    ∃ covered, List.Forall₂ (record label kind after).Shows names covered ∧
      some (Checksum.crc32 covered.flatten).toNat = found ∧
      ∀ around : Surroundings, (Role.checksumOf names).dependent
        (aroundPart around label kind place after packed) = .ok found := by
  obtain ⟨covered, hcovered, rfl⟩ := Role.dependent_checksumOf_eq_ok.1 hrole
  have hcovered := (List.forall₂_and_left _ _).2 ⟨hnames, hcovered⟩
  refine ⟨covered, hcovered.imp ?_, rfl, fun around =>
    Role.dependent_checksumOf_eq_ok.2 ⟨covered, hcovered.imp ?_, rfl⟩⟩
  · rintro name octets ⟨⟨earlier, hearlier, hname⟩, target, hrefer, hraw⟩
    rw [hname.refer_eq hfree hseen hown] at hrefer
    obtain ⟨-, htarget⟩ := Option.ite_none_right_eq_some.1 hrefer
    refine ⟨target, ?_, hraw⟩
    rw [hname.find?_eq, ← hsame earlier hearlier, htarget]
    rfl
  · rintro name octets ⟨⟨earlier, hearlier, hname⟩, target, hrefer, hraw⟩
    rw [hname.refer_eq hfree hseen hown, hsame earlier hearlier, ← hlabel] at hrefer
    have hafterOwn : packed.label.father? = none := by rw [hlabel, hown]
    exact ⟨target, (hname.refer_eq hfree hafter hafterOwn around).trans hrefer, hraw⟩

end Numbers

/-- A part of a record that has been packed agrees with the parts as they are in the end, and does
not change any more. -/
theorem exists_of_packPlaces (horderly : OrderlyParts label kind parts)
    (hparts : packPlaces (packPart bound around label kind) kind.order parts = (.ok octets, after))
    (hpack : ∀ part ∈ kind.inOrder parts, part.Settles bound)
    {place : Nat} (hplace : place ∈ kind.order) {packed : Field}
    (hpacked : after[place]? = some packed) :
    ∃ piece, packed.Rests piece ∧ (record label kind after).Agrees packed ∧
      ∀ bound around, packed.depth ≤ bound →
        packPart bound around label kind place after packed = (.ok piece, packed) := by
  obtain ⟨part, hpart⟩ := exists_given hparts hpacked
  obtain ⟨front, back, horder⟩ := List.append_of_mem hplace
  obtain ⟨seen, piece, found, hpack', hseen, hafter, hfront, hothers⟩ :=
    exists_seen horderly.once hparts horder hpart
  obtain rfl : found = packed := Option.some.inj (hafter.symm.trans hpacked)
  obtain ⟨hrests, hstays⟩ := hpack part (List.mem_filterMap.2 ⟨place, hplace, hpart⟩) _ _ _ hpack'
  -- It is enough that what a number finds among the parts as they are then, it finds in the end.
  suffices h : (record label kind after).Agrees found ∧ ∀ around' : Surroundings,
      found.role.dependent (aroundPart around' label kind place after found) =
        part.role.dependent (aroundPart around label kind place seen part) from
    ⟨piece, hrests, h.1, fun bound around' hdepth => hstays bound _ hdepth (h.2 around')⟩
  cases (packs_of_packWithin hpack').2 with
  | plain _ hrole => exact ⟨agrees_of_role hrole, fun _ => by rw [hrole]; rfl⟩
  | elements => exact ⟨trivial, fun _ => rfl⟩
  | content => exact ⟨trivial, fun _ => rfl⟩
  | parts => exact ⟨trivial, fun _ => rfl⟩
  | @number _ _ partLabel role format order choices value found _ hrole hraw =>
    simp only [Field.role, hrole]
    cases role with
    | stored => exact ⟨trivial, fun _ => hrole⟩
    | sizeOf name =>
      obtain ⟨other, hother, hname⟩ := horderly.found place hplace _ hpart
      have hown := horderly.own place hplace _ hpart (by simp [role])
      have hsame : seen[other]? = parts[other]? ∨ seen[other]? = after[other]? := by
        by_cases h : other ∈ front
        · exact .inr (hfront other h)
        · exact .inl (hothers other h)
      obtain ⟨octets, hshows, rfl, hagain⟩ :=
        finds_size horderly hparts hpack hseen hafter hown rfl hother hname hsame hrole
      exact ⟨⟨octets, hshows, rfl⟩, hagain⟩
    | checksumOf names =>
      have hnames := horderly.found place hplace _ hpart
      have hown := horderly.own place hplace _ hpart (by simp [role])
      simp only [Role.Found, RecordKind.before_eq horderly.once horder] at hnames
      obtain ⟨covered, hshows, rfl, hagain⟩ :=
        finds_checksum horderly.free hseen hafter hown rfl hnames hfront hrole
      exact ⟨⟨covered, hshows, rfl⟩, hagain⟩

end Parts

/-! ## Packing any field -/

/-- A number that depends on nothing agrees with its role anywhere. -/
theorem agrees_of_names_eq_nil {bound : Nat} {around : Surroundings} {field after : Field}
    {octets : Octets} (h : field.packWithin bound around = (.ok octets, after))
    (hnames : field.role.names = []) (outer : Field) : outer.Agrees after := by
  cases (packs_of_packWithin h).2 with
  | plain _ hrole => exact agrees_of_role hrole
  | elements => trivial
  | content => trivial
  | parts => trivial
  | @number _ _ _ role _ _ _ _ _ _ hrole =>
    cases role with
    | stored => trivial
    | sizeOf name => cases hnames
    | checksumOf names =>
      obtain rfl : names = [] := hnames
      obtain rfl := Except.ok.inj hrole
      exact ⟨[], .nil, rfl⟩

theorem size_of_isPlain {field : Field} {octets : Octets} (h : field.IsPlain)
    (hraw : field.raw = .ok octets) : field.size = .ok octets.length := by
  cases field with
  | number => exact h.elim
  | record => exact h.elim
  | octets => exact congrArg (Except.ok ·.length) (Except.ok.inj hraw)
  | array => exact extent_of_raw hraw
  | plain => cases hraw

theorem inner_of_isPlain {field : Field} (h : field.IsPlain) : field.inner = [] := by
  cases field with
  | record => exact h.elim
  | array label element value =>
    cases value with
    | list => exact h.elim
    | field content =>
      cases content with
      | array => exact h.elim
      | _ => rfl
    | _ => rfl
  | _ => rfl

theorem settled_of_inner_eq_nil {field : Field} (h : field.inner = []) : field.Settled :=
  .of_inner (by simp [h]) (by simp [h])

theorem settles_of_isPlain {field : Field} (h : field.IsPlain) (bound : Nat) :
    field.Settles bound := by
  intro around octets after hpacked
  obtain ⟨hhides, -⟩ := packs_of_packWithin hpacked
  rw [packWithin_of_isPlain h hhides] at hpacked
  obtain ⟨hraw, rfl⟩ := Prod.mk.inj hpacked
  refine ⟨⟨hraw, size_of_isPlain h hraw, settled_of_inner_eq_nil (inner_of_isPlain h)⟩, ?_⟩
  intro bound around _ _
  rw [packWithin_of_isPlain h hhides, hraw]

theorem settles_number (label : Label) (role : Role) (format : IntegerFormat) (order : ByteOrder)
    (choices : Option Enumeration) (value : Value) (bound : Nat) :
    (number label role format order choices value).Settles bound := by
  intro around octets after hpacked
  obtain ⟨hhides, -⟩ := packs_of_packWithin hpacked
  obtain ⟨found, hrole⟩ := exists_dependent hpacked
  rw [packWithin_number hhides hrole] at hpacked
  obtain ⟨hraw, rfl⟩ := Prod.mk.inj hpacked
  refine ⟨⟨hraw, congrArg Except.ok (length_of_numberRaw hraw).symm,
    settled_of_inner_eq_nil rfl⟩, ?_⟩
  intro bound around _ hagain
  have hagain : role.dependent around = .ok found := hagain.trans hrole
  rw [packWithin_number (by exact hhides) hagain]
  cases found <;> exact Prod.ext hraw rfl

/-- Packing an array settles it if packing its elements does. -/
theorem settles_array {label : Label} {element : ClassRef} {items : List Value} {bound : Nat}
    (hitems : ∀ item ∈ (array label element (.list items)).inner,
      item.Settles bound ∧ item.role.names = []) :
    (array label element (.list items)).Settles (bound + 1) := by
  intro around octets after hpacked
  obtain ⟨hhides, hpacks⟩ := packs_of_packWithin hpacked
  cases hpacks with
  | plain hfield => exact (hfield.resolve_right (Nat.succ_ne_zero _)).elim
  | elements hpackedItems =>
    obtain ⟨entries, rfl, rfl, rfl, hentries⟩ := exists_of_packElements hpackedItems
    rw [inner, Value.filterMap_field?] at hitems
    rw [List.nil_append]
    have hentry : ∀ entry ∈ entries, entry.after.Rests entry.octets ∧
        (∀ outer : Field, outer.Agrees entry.after) ∧ ∀ bound around, entry.after.depth ≤ bound →
          entry.after.packWithin bound around = (.ok entry.octets, entry.after) := by
      intro entry hmem
      obtain ⟨before, rest, hpacked⟩ := hentries entry hmem
      obtain ⟨hsettles, hnames⟩ := hitems _ (List.mem_map_of_mem hmem)
      obtain ⟨hrests, hstays⟩ := hsettles _ _ _ hpacked
      refine ⟨hrests, agrees_of_names_eq_nil hpacked hnames, fun bound around hdepth =>
        hstays bound around hdepth ?_⟩
      rw [role_of_packWithin hpacked]
      exact (Role.dependent_of_names_eq_nil hnames _).trans
        (Role.dependent_of_names_eq_nil hnames _).symm
    have hraw : (array label element (.list ((entries.map PackedField.after).map .field))).raw =
        .ok (entries.map PackedField.octets).flatten := by
      refine raw_array_eq_ok.2 ⟨_, ?_, rfl⟩
      rw [List.map_map, List.map_map]
      exact List.map_congr_left fun entry hmem => (hentry entry hmem).1.raw
    refine ⟨⟨hraw, extent_of_raw hraw, .of_inner ?_ ?_⟩, ?_⟩
    · rw [inner, Value.filterMap_field?]
      exact List.forall_mem_map.2 fun entry hmem => (hentry entry hmem).2.1 _
    · rw [inner, Value.filterMap_field?]
      exact List.forall_mem_map.2 fun entry hmem => (hentry entry hmem).1.settled
    · intro bound around hdepth _
      obtain ⟨bound, rfl, hless⟩ := exists_bound hdepth
      rw [inner, Value.filterMap_field?] at hless
      have hstays : ∀ before rest, ∀ item ∈ entries.map PackedField.after,
          packElement bound around label element before rest item = (item.raw, item) := by
        refine fun before rest => List.forall_mem_map.2 fun entry hmem => ?_
        rw [(hentry entry hmem).1.raw]
        exact (hentry entry hmem).2.2 bound _ (hless _ (List.mem_map_of_mem hmem))
      rw [packWithin_array (by exact hhides), packElements_eq _ hstays, List.nil_append]
      rw [raw, Value.rawElements, valueRaws_map_field] at hraw
      rw [hraw]

/-- Packing an array around an array settles it if packing the inner one does. -/
theorem Settles.content {innerLabel : Label} {innerElement : ClassRef} {value : Value}
    {bound : Nat} (h : (array innerLabel innerElement value).Settles bound) (label : Label)
    (element : ClassRef) :
    (array label element (.field (array innerLabel innerElement value))).Settles (bound + 1) := by
  intro around octets after hpacked
  obtain ⟨hhides, hpacks⟩ := packs_of_packWithin hpacked
  cases hpacks with
  | plain hfield => exact (hfield.resolve_right (Nat.succ_ne_zero _)).elim
  | content hinner =>
    obtain ⟨packed, rfl⟩ := exists_of_packWithin_array hinner
    obtain ⟨hrests, hstays⟩ := h {} octets _ hinner
    have hraw : (array label element (.field (array innerLabel innerElement packed))).raw =
        .ok octets := (raw_array_of_array ..).trans hrests.raw
    refine ⟨⟨hraw, extent_of_raw hraw, .of_inner (List.forall_mem_singleton.2 trivial)
      (List.forall_mem_singleton.2 hrests.settled)⟩, ?_⟩
    intro bound around hdepth _
    obtain ⟨bound, rfl, hless⟩ := exists_bound hdepth
    rw [packWithin_content (by exact hhides),
      hstays bound {} (hless _ (List.mem_singleton_self _)) rfl]

/-- Packing an orderly record settles it if packing its parts does. -/
theorem settles_record {label : Label} {kind : RecordKind} {parts : List Field} {bound : Nat}
    (horderly : OrderlyParts label kind parts)
    (hsettles : ∀ part ∈ kind.inOrder parts, part.Settles bound) :
    (record label kind parts).Settles (bound + 1) := by
  intro around octets after hpacked
  obtain ⟨hhides, hpacks⟩ := packs_of_packWithin hpacked
  cases hpacks with
  | plain hfield => exact (hfield.resolve_right (Nat.succ_ne_zero _)).elim
  | @parts _ _ _ _ _ after _ hparts =>
    have hpart := fun place (hplace : place ∈ kind.order) packed
        (hpacked : after[place]? = some packed) =>
      exists_of_packPlaces horderly hparts hsettles hplace hpacked
    obtain ⟨pieces, rfl, hpieces⟩ := packPlaces_pieces
      (p := fun field piece => field.raw = .ok piece ∧ field.size = .ok piece.length)
      horderly.once hparts fun place hplace seen part piece packed hpart hpacked =>
        have hrests := (hsettles part (List.mem_filterMap.2 ⟨place, hplace, hpart⟩) _ _ _ hpacked).1
        ⟨hrests.raw, hrests.size⟩
    have hhidden {what : Attribute} (hall : what ∈ Attribute.all) : kind.hides what = false :=
      Steady.kind_hides_eq horderly.free hall
    have hraws : (kind.inOrder after).map raw = pieces.map .ok :=
      map_eq_map_ok.2 (hpieces.imp fun _ _ h => h.1)
    have hsizes : (kind.inOrder after).map size = (pieces.map List.length).map .ok :=
      map_eq_map_ok.2 (List.forall₂_map_right_iff.2 (hpieces.imp fun _ _ h => h.2))
    have hraw : (record label kind after).raw = .ok pieces.flatten :=
      raw_record_eq_ok.2 ⟨hhidden (by decide), pieces, hraws, rfl⟩
    have hsize : (record label kind after).size = .ok pieces.flatten.length :=
      size_record_eq_ok.2 ⟨hhidden (by decide), _, (inOrder_map ..).trans hsizes,
        List.length_flatten.symm⟩
    refine ⟨⟨hraw, hsize, .of_inner ?_ ?_⟩, ?_⟩
    · intro packed hmem
      obtain ⟨place, hplace, hpacked⟩ := List.mem_filterMap.1 hmem
      obtain ⟨-, -, hagrees, -⟩ := hpart place hplace packed hpacked
      exact hagrees
    · intro packed hmem
      obtain ⟨place, hplace, hpacked⟩ := List.mem_filterMap.1 hmem
      obtain ⟨piece, hrests, -⟩ := hpart place hplace packed hpacked
      exact hrests.settled
    · intro bound around hdepth _
      obtain ⟨bound, rfl, hless⟩ := exists_bound hdepth
      have hstays : ∀ place ∈ kind.order, ∀ packed, after[place]? = some packed →
          packPart bound around label kind place after packed = (packed.raw, packed) := by
        intro place hplace packed hpacked
        obtain ⟨piece, hrests, -, hstays⟩ := hpart place hplace packed hpacked
        rw [hrests.raw]
        exact hstays bound around (hless _ (List.mem_filterMap.2 ⟨place, hplace, hpacked⟩))
      rw [hides_record_eq (length_of_packPlaces hparts).symm] at hhides
      rw [packWithin_record hhides, packPlaces_eq _ hstays]
      exact Prod.ext (collect_map_eq_ok.2 ⟨pieces, hraws, rfl⟩) rfl

/-- Packing a field settles it, if all fields in it are orderly. -/
theorem settles_of_orderly {bound : Nat} {field : Field}
    (horderly : ∀ outer, field.Within outer → outer.Orderly) (hdepth : field.depth ≤ bound) :
    field.Settles bound := by
  induction bound generalizing field with
  | zero => exact absurd field.depth_pos (by omega)
  | succ bound ih =>
    obtain ⟨_, hbound, hless⟩ := exists_bound hdepth
    obtain rfl := Nat.succ.inj hbound
    have hsettles : ∀ part ∈ field.inner, part.Settles bound := fun part hmem =>
      ih (Within.forall_of_mem horderly hmem) (hless part hmem)
    have hfield := horderly field .refl
    cases field with
    | number => exact settles_number _ _ _ _ _ _ _
    | octets => exact settles_of_isPlain (by trivial) _
    | plain => exact settles_of_isPlain (by trivial) _
    | record => exact settles_record hfield hsettles
    | array label element value =>
      cases value with
      | list items => exact settles_array fun item hmem => ⟨hsettles item hmem, hfield item hmem⟩
      | field content =>
        cases content with
        | array => exact (hsettles _ (List.mem_singleton_self _)).content label element
        | _ => exact settles_of_isPlain (by trivial) _
      | _ => exact settles_of_isPlain (by trivial) _

/-- Packing a record in which sizes are those of parts, and checksums cover parts before them, gives
the octets that it has then, as many as its size says. All numbers that depend on other fields, and
belong to the records they are in, are right then, and packing the record again, wherever it is,
gives the same octets and changes nothing. -/
theorem settled_of_pack {label : Label} {kind : RecordKind} {parts : List Field}
    (horderly : ∀ outer, (record label kind parts).Within outer → outer.Orderly)
    {around : Surroundings} {octets : Octets} {after : Field}
    (h : (record label kind parts).pack around = (.ok octets, after)) :
    after.raw = .ok octets ∧ after.size = .ok octets.length ∧ after.Settled ∧
      ∀ around, after.pack around = (.ok octets, after) := by
  obtain ⟨hrests, hstays⟩ := settles_of_orderly horderly (Nat.le_refl _) around octets after h
  refine ⟨hrests.raw, hrests.size, hrests.settled, fun around => ?_⟩
  exact hstays after.depth around (Nat.le_refl _) (by rw [role_of_packWithin h]; rfl)

/-- A few octets with their checksum, in a record that begins with the length of both. The numbers
have not been found yet. -/
def sealedRecord : Field :=
  let word (role : Role) : Field := .number .fresh role ⟨4, false⟩ .big none (.integer 0)
  let body := Field.record .fresh ⟨"Sealed", [1, 0], ["data", "seal"], [0, 1]⟩
    [(octets .fresh none [1, 2, 3]).asPart "data" "Sealed",
      (word (.checksumOf ["data"])).asPart "seal" "Sealed"]
  .record .fresh ⟨"Prefixed", [2, 0], ["length", "body"], [0, 1]⟩
    [(word (.sizeOf "body")).asPart "length" "Prefixed", body.asPart "body" "Prefixed"]

theorem orderly_sealedRecord : ∀ outer, sealedRecord.Within outer → outer.Orderly := by
  have hleaf {field : Field} (horderly : field.Orderly) (h : field.inner = []) :
      ∀ outer, field.Within outer → outer.Orderly := Within.forall_of_inner horderly (by simp [h])
  refine Within.forall_of_inner (by decide) (List.forall_mem_cons.2 ⟨hleaf (by decide) rfl, ?_⟩)
  refine List.forall_mem_singleton.2 (Within.forall_of_inner (by decide) ?_)
  exact List.forall_mem_cons.2 ⟨hleaf (by decide) rfl,
    List.forall_mem_singleton.2 (hleaf (by decide) rfl)⟩

theorem settled_of_pack_sealedRecord : ∃ after,
    sealedRecord.pack {} = (.ok [0, 0, 0, 7, 1, 2, 3, 0x55, 0xbc, 0x80, 0x1d], after) ∧
      after.raw = .ok [0, 0, 0, 7, 1, 2, 3, 0x55, 0xbc, 0x80, 0x1d] ∧ after.size = .ok 11 ∧
      after.Settled ∧
      ∀ around, after.pack around =
        (.ok [0, 0, 0, 7, 1, 2, 3, 0x55, 0xbc, 0x80, 0x1d], after) := by
  obtain ⟨packed, hpacked⟩ : ∃ packed, sealedRecord.pack {} = packed := ⟨_, rfl⟩
  have hoctets : (sealedRecord.pack {}).1 =
      .ok [0, 0, 0, 7, 1, 2, 3, 0x55, 0xbc, 0x80, 0x1d] := by decide +kernel
  rw [hpacked] at hoctets ⊢
  have hpack := hpacked.trans (Prod.ext hoctets rfl : packed = (_, packed.2))
  exact ⟨packed.2, Prod.ext hoctets rfl, settled_of_pack orderly_sealedRecord hpack⟩

/-- The kind of records of octets and their number. -/
def countedKind : RecordKind :=
  ⟨"Counted", [6, 0], ["data", "count"], [0, 1]⟩

/-- The number of octets has not been found yet. -/
def countedClass : Class :=
  ⟨"Counted", [6, 0], ["data", "count"],
    [("data", .octets .fresh none []),
      ("count", .number .fresh (.sizeOf "data") wordFormat .big none (.integer 0))]⟩

/-- A record of this class, with what has been attached to the number. -/
def countedRecord (data : Octets) (held : Bool) (attached : List (String × Value)) (count : Int) :
    Field :=
  .record .fresh countedKind
    [.octets (.mk "data" "Counted" true []) none data,
      .number (.mk "count" "Counted" held attached) (.sizeOf "data") wordFormat .big none
        (.integer count)]

/-- Three octets with the number of the octets of another record. -/
def estranged (count : Int) : Field :=
  countedRecord [1, 2, 3] true [("father", .field (countedRecord [1] false [] 0))] count

/-- The class is declared, and a record of it is created. -/
theorem reached_countedRecord (data : Octets) :
    Reached ⟨6, Png.registry.classes ++ [countedClass]⟩
      (.field (countedRecord data false [] 0)) := by
  have hname : "Counted".contains '\x00' = false := by simp
  have hdeclared : Png.registry.declare "Counted" ["Chunk"]
      [("data", .octets none (.octets [])), ("count", .sizeOf "data")] =
        .ok ⟨6, Png.registry.classes ++ [countedClass]⟩ := by
    simp only [Registry.declare, hname, Bool.false_eq_true, if_false]
    rfl
  have hcreated : Registry.value ⟨6, Png.registry.classes ++ [countedClass]⟩
      (.record "Counted" [("data", .octets data)]) =
        .ok (.field (countedRecord data false [] 0)) := rfl
  exact .described (Registry.Declared.start.declare hdeclared) hcreated

/-- A number that is made to belong to another record is found there, and is wrong where it is. -/
theorem not_settled_estranged :
    (∀ data, Reached ⟨6, Png.registry.classes ++ [countedClass]⟩
      (.field (countedRecord data false [] 0))) ∧
    (Operation.set [.name "count", .name "father"]
      (.ok (.field (countedRecord [1] false [] 0)))).run (countedRecord [1, 2, 3] false [] 0) =
        .ok () (estranged 0) ∧
    countedKind.order.Nodup ∧ (∀ what ∈ Attribute.all, what.word ∉ countedKind.names) ∧
    (Role.sizeOf "data").Found .fresh countedKind 1 ∧
    (estranged 0).pack {} = (.ok [1, 2, 3, 0, 0, 0, 1], estranged 1) ∧
    ¬ (estranged 1).Settled := by
  refine ⟨reached_countedRecord, rfl, by decide, by decide, by decide, rfl, fun hsettled => ?_⟩
  -- The number is that of the octets of the other record.
  obtain ⟨octets, ⟨data, hdata, hraw⟩, hcount⟩ :=
    hsettled _ .refl _ (List.mem_cons_of_mem _ List.mem_cons_self)
  cases hdata
  cases hraw
  cases hcount

end Field

end ScriptedPng.Record
