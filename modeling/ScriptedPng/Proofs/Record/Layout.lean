import ScriptedPng.Proofs.Record.Sizes
import ScriptedPng.Proofs.Record.Sound

/-!
# Layouts of records

The layout of a record says where its parts lie in its octets. It is found out from sizes alone, as
the size of the record is; both agree with the octets. A part that is stored more than once is found
at one of its places.

## Main definitions

* `Field.Clear` — no part of a record takes the place of an attribute.
* `Record.Tiles` — entries of a layout follow one another without gaps.
* `Field.LaidOut` — what the entries of a layout tell of the octets.

## Main statements

* `Field.size_of_raw` — the size of a field is the number of its octets.
* `Field.layout_of_raw` — the entries of a layout are where the parts lie.
-/

namespace ScriptedPng.Record

/-! ## Names -/

section

variable {α : Type}

theorem nodup_eraseDups [BEq α] [LawfulBEq α] (items : List α) : items.eraseDups.Nodup := by
  induction hlength : items.length using Nat.strongRecOn generalizing items with
  | ind length ih =>
    cases items with
    | nil => exact List.nodup_nil
    | cons first rest =>
      rw [List.eraseDups_cons]
      refine List.nodup_cons.2 ⟨by simp, ih _ ?_ _ rfl⟩
      rw [← hlength]
      exact Nat.lt_succ_of_le (List.length_filter_le _ _)

theorem eraseDups_eq_self [BEq α] [LawfulBEq α] {items : List α} (h : items.Nodup) :
    items.eraseDups = items := by
  induction items with
  | nil => rfl
  | cons first rest ih =>
    obtain ⟨hfirst, hrest⟩ := List.nodup_cons.1 h
    have hkept : rest.filter (fun other => !other == first) = rest := by
      refine List.filter_eq_self.2 fun other hmem => ?_
      have hne : other ≠ first := fun heq => hfirst (heq ▸ hmem)
      simpa using hne
    rw [List.eraseDups_cons, hkept, ih hrest]

/-- The last entry of each name is one of the entries. -/
theorem mem_of_mem_lastEntries {entries : List (String × α)} {entry : String × α}
    (h : entry ∈ lastEntries entries) : entry ∈ entries := by
  obtain ⟨name, -, hname⟩ := List.mem_filterMap.1 h
  obtain ⟨found, hfound, rfl⟩ := Option.map_eq_some_iff.1 hname
  obtain ⟨front, back, heq, -⟩ := List.lookup_eq_some_iff.1 hfound
  exact List.mem_reverse.1 (by simp [heq])

theorem isSome_lookup_iff_mem {entries : List (String × α)} {name : String} :
    (entries.lookup name).isSome ↔ name ∈ entries.map Prod.fst := by
  constructor
  · intro h
    obtain ⟨found, hfound⟩ := Option.isSome_iff_exists.1 h
    obtain ⟨front, back, rfl, -⟩ := List.lookup_eq_some_iff.1 hfound
    simp
  · intro h
    rw [Option.isSome_iff_ne_none]
    intro hnone
    obtain ⟨entry, hmem, rfl⟩ := List.mem_map.1 h
    simpa using List.lookup_eq_none_iff.1 hnone entry hmem

theorem lookup_of_mem {entries : List (String × α)} {entry : String × α}
    (h : (entries.map Prod.fst).Nodup) (hmem : entry ∈ entries) :
    entries.lookup entry.1 = some entry.2 := by
  obtain ⟨front, back, rfl⟩ := List.append_of_mem hmem
  refine List.lookup_eq_some_iff.2 ⟨front, back, rfl, fun other hother => ?_⟩
  rw [List.map_append, List.nodup_append] at h
  have hne := h.2.2 _ (List.mem_map_of_mem hother) entry.1 (by simp)
  simpa using Ne.symm hne

/-- Each name has one entry. -/
theorem map_fst_lastEntries (entries : List (String × α)) :
    (lastEntries entries).map Prod.fst = (entries.map Prod.fst).eraseDups := by
  rw [lastEntries, List.map_filterMap]
  refine (List.filterMap_congr (g := some) fun name hmem => ?_).trans List.filterMap_some
  have hname : name ∈ entries.reverse.map Prod.fst := by
    rw [List.map_reverse, List.mem_reverse]
    exact List.mem_eraseDups.1 hmem
  obtain ⟨found, hfound⟩ := Option.isSome_iff_exists.1 (isSome_lookup_iff_mem.2 hname)
  simp [hfound]

/-- Where no name is there twice, all entries are the last of their names. -/
theorem lastEntries_eq_self {entries : List (String × α)} (h : (entries.map Prod.fst).Nodup) :
    lastEntries entries = entries := by
  rw [lastEntries, eraseDups_eq_self h, List.filterMap_map]
  refine (List.filterMap_congr (g := some) fun entry hmem => ?_).trans List.filterMap_some
  have hreverse : (entries.reverse.map Prod.fst).Nodup := by
    rw [List.map_reverse]
    exact (List.reverse_perm _).nodup_iff.2 h
  simp [lookup_of_mem hreverse (List.mem_reverse.2 hmem)]

end

/-! ## Entries -/

/-- Each entry starts where the one before it ends, from the start up to the end. -/
inductive Tiles : Nat → List (String × Nat × Nat) → Nat → Prop
  | nil {start : Nat} : Tiles start [] start
  | cons {start stop size : Nat} {name : String} {entries : List (String × Nat × Nat)}
      (h : Tiles (start + size) entries stop) : Tiles start ((name, start, size) :: entries) stop

namespace Tiles

variable {start stop : Nat} {entries : List (String × Nat × Nat)}

theorem le (h : Tiles start entries stop) : ∀ entry ∈ entries, start ≤ entry.2.1 := by
  induction h with
  | nil => simp
  | cons _ ih =>
    refine List.forall_mem_cons.2 ⟨Nat.le_refl _, fun entry hmem => ?_⟩
    exact Nat.le_trans (Nat.le_add_right _ _) (ih entry hmem)

/-- Of two entries, one ends before the other one starts. -/
theorem disjoint (h : Tiles start entries stop) : ∀ entry ∈ entries, ∀ other ∈ entries,
    entry ≠ other →
      entry.2.1 + entry.2.2 ≤ other.2.1 ∨ other.2.1 + other.2.2 ≤ entry.2.1 := by
  induction h with
  | nil => simp
  | cons hrest ih =>
    intro entry hentry other hother hne
    rcases List.mem_cons.1 hentry with rfl | hentry <;>
      rcases List.mem_cons.1 hother with rfl | hother
    · exact absurd rfl hne
    · exact .inl (hrest.le other hother)
    · exact .inr (hrest.le entry hentry)
    · exact ih entry hentry other hother hne

end Tiles

/-- Sizes that follow one another tile. -/
theorem tiles_offsets {names : List String} {sizes : List Nat} (start : Nat)
    (hlength : names.length = sizes.length) :
    Tiles start (names.zip (offsets start sizes)) (start + sizes.sum) := by
  induction sizes generalizing names start with
  | nil =>
    obtain rfl := List.length_eq_zero_iff.1 hlength
    exact .nil
  | cons size sizes ih =>
    obtain ⟨name, names, rfl⟩ := List.exists_cons_of_length_eq_add_one hlength
    rw [List.sum_cons, ← Nat.add_assoc]
    exact .cons (ih _ (Nat.succ.inj hlength))

theorem length_offsets (start : Nat) (sizes : List Nat) :
    (offsets start sizes).length = sizes.length := by
  induction sizes generalizing start with
  | nil => rfl
  | cons size sizes ih => rw [offsets, List.length_cons, ih, List.length_cons]

/-- A part under its name with its octets. -/
structure Stored where
  name : String
  part : Field
  octets : Octets

/-- Where octets are put together, each entry tells the place of its piece. -/
theorem exists_of_mem_offsets {pieces : List Stored} {start : Nat} {entry : String × Nat × Nat}
    (hmem : entry ∈ (pieces.map Stored.name).zip
      (offsets start (pieces.map fun piece => piece.octets.length))) :
    ∃ piece ∈ pieces, piece.name = entry.1 ∧ piece.octets.length = entry.2.2 ∧ start ≤ entry.2.1 ∧
      (((pieces.map Stored.octets).flatten.drop (entry.2.1 - start)).take entry.2.2) =
        piece.octets := by
  induction pieces generalizing start with
  | nil => simp at hmem
  | cons first rest ih =>
    rcases List.mem_cons.1 hmem with rfl | hmem
    · exact ⟨first, List.mem_cons_self, rfl, rfl, Nat.le_refl _, by simp⟩
    · obtain ⟨piece, hpiece, hname, hlength, hle, hoctets⟩ := ih hmem
      have hle : start + first.octets.length ≤ entry.2.1 := hle
      refine ⟨piece, List.mem_cons_of_mem _ hpiece, hname, hlength, by omega, ?_⟩
      rw [List.map_cons, List.flatten_cons, List.drop_append, List.drop_eq_nil_of_le (by omega),
        List.nil_append, Nat.sub_sub]
      exact hoctets

/-! ## Records -/

namespace Field

variable {lists : List (List String)} {label : Label} {kind : RecordKind} {parts : List Field}
  {octets : Octets}

/-- No part of a record in the field takes the place of an attribute. -/
def Clear (whole : Field) : Prop :=
  ∀ label kind parts, whole.Within (record label kind parts) →
    ∀ what ∈ Attribute.all, what.word ∉ kind.names

theorem Clear.of_mem_inner {whole part : Field} (h : whole.Clear) (hmem : part ∈ whole.inner) :
    part.Clear :=
  fun label kind parts hwithin => h label kind parts ((Within.of_mem hmem).trans hwithin)

theorem clear_of_inner {whole : Field}
    (h : ∀ label kind parts, whole = record label kind parts →
      ∀ what ∈ Attribute.all, what.word ∉ kind.names)
    (hinner : ∀ part ∈ whole.inner, part.Clear) : whole.Clear := by
  intro label kind parts hwithin
  rcases hwithin.eq_or_mem with heq | ⟨part, hmem, hwithin⟩
  · exact h label kind parts heq.symm
  · exact hinner part hmem label kind parts hwithin

theorem Clear.hides_eq {what : Attribute} (h : (record label kind parts).Clear)
    (hall : what ∈ Attribute.all) : kind.hides what = false :=
  Steady.kind_hides_eq (h label kind parts .refl) hall

/-- Fields that all have octets. -/
theorem exists_raw_of_mem {fields : List Field} {raws : List Octets} {field : Field}
    (h : fields.map raw = raws.map .ok) (hmem : field ∈ fields) :
    ∃ octets, field.raw = .ok octets := by
  have hraw : field.raw ∈ raws.map .ok := h ▸ List.mem_map_of_mem hmem
  obtain ⟨octets, -, heq⟩ := List.mem_map.1 hraw
  exact ⟨octets, heq.symm⟩

/-- The size of a field is the number of its octets. -/
theorem size_of_raw {field : Field} (h : field.Clear) (hraw : field.raw = .ok octets) :
    field.size = .ok octets.length := by
  induction field using inner_induction generalizing octets with
  | h field ih =>
    cases field with
    | number => exact congrArg Except.ok (length_of_numberRaw hraw).symm
    | octets =>
      cases hraw
      rfl
    | array => exact congrArg (Except.map List.length) hraw
    | plain => cases hraw
    | record label kind parts =>
      obtain ⟨-, raws, hraws, rfl⟩ := raw_record_eq_ok.1 hraw
      refine size_record_eq_ok.2 ⟨h.hides_eq (by decide), raws.map List.length, ?_, ?_⟩
      · have hsize : ∀ part ∈ kind.inOrder parts, part.size = part.raw.map List.length := by
          intro part hmem
          obtain ⟨octets, hoctets⟩ := exists_raw_of_mem hraws hmem
          rw [ih part hmem (h.of_mem_inner hmem) hoctets, hoctets]
          rfl
        calc kind.inOrder (parts.map size)
            = (kind.inOrder parts).map fun part => part.raw.map List.length := by
              rw [inOrder_map, List.map_congr_left hsize]
          _ = ((kind.inOrder parts).map raw).map (·.map List.length) := by
              rw [List.map_map]
              rfl
          _ = (raws.map List.length).map .ok := by
              rw [hraws, List.map_map, List.map_map]
              rfl
      · rw [List.length_flatten]

/-- The part that is stored at the place of a name stands under the name. -/
theorem find?_of_getElem? {name : String} {place : Nat} {part : Field}
    (hfits : kind.Fits lists label parts) (hplace : place ∈ kind.order)
    (hname : kind.names[place]? = some name) (hpart : parts[place]? = some part) :
    (record label kind parts).find? name = some (.field part) := by
  have hfree := hfits.free name (List.mem_filterMap.2 ⟨place, hplace, hname⟩)
  obtain ⟨hlt, rfl⟩ := List.getElem?_eq_some_iff.1 hname
  rw [find?, Field.label, hfree, part?, named?, hfits.nodup.idxOf_getElem, hpart, Option.map_some]

/-- The parts that are stored, under their names and with their octets. -/
theorem exists_stored (hfits : kind.Fits lists label parts) {raws : List Octets}
    (hraws : (kind.inOrder parts).map raw = raws.map .ok) :
    ∃ pieces : List Stored, pieces.map Stored.name = kind.orderedNames ∧
      pieces.map Stored.part = kind.inOrder parts ∧ pieces.map Stored.octets = raws ∧
      ∀ piece ∈ pieces, (record label kind parts).find? piece.name = some (.field piece.part) ∧
        piece.part.raw = .ok piece.octets := by
  let known (part : Field) : Octets := part.raw.toOption.getD []
  let stored (entry : String × Field) : Stored := ⟨entry.1, entry.2, known entry.2⟩
  have hparts : (kind.inOrder (kind.names.zip parts)).map Prod.snd = kind.inOrder parts := by
    rw [← inOrder_map, List.map_snd_zip (Nat.le_of_eq hfits.length_eq)]
  refine ⟨(kind.inOrder (kind.names.zip parts)).map stored, ?_, ?_, ?_, ?_⟩
  · rw [List.map_map, ← inOrder_map, RecordKind.orderedNames]
    exact congrArg kind.inOrder (List.map_fst_zip (Nat.le_of_eq hfits.length_eq.symm))
  · rw [List.map_map]
    exact hparts
  · calc ((kind.inOrder (kind.names.zip parts)).map stored).map Stored.octets
        = ((kind.inOrder parts).map raw).map fun found => found.toOption.getD [] := by
          rw [← hparts, List.map_map, List.map_map, List.map_map]
          rfl
      _ = raws := by
          rw [hraws, List.map_map]
          exact List.map_id _
  · intro piece hmem
    obtain ⟨⟨name, part⟩, hentry, rfl⟩ := List.mem_map.1 hmem
    have hpart : part ∈ kind.inOrder parts := hparts ▸ List.mem_map_of_mem hentry
    obtain ⟨octets, hoctets⟩ := exists_raw_of_mem hraws hpart
    obtain ⟨place, hplace, hentry⟩ := List.mem_filterMap.1 hentry
    obtain ⟨hname, hfound⟩ := List.getElem?_zip_eq_some.1 hentry
    refine ⟨find?_of_getElem? hfits hplace hname hfound, ?_⟩
    simp [stored, known, hoctets, Except.toOption]

/-- What the entries of a layout tell. Each name that is stored has one, which gives the size of the
part and the place of its octets in those of the record. Entries of different names do not overlap,
and where no name is stored twice the entries make up the octets without gaps. -/
structure LaidOut (whole : Field) (octets : Octets) (entries : List (String × Nat × Nat)) :
    Prop where
  names : entries.map Prod.fst = whole.storedNames.eraseDups
  places : ∀ name offset n, (name, offset, n) ∈ entries →
    ∃ part, whole.find? name = some (.field part) ∧ part.size = .ok n ∧
      part.raw = .ok ((octets.drop offset).take n)
  disjoint : ∀ entry ∈ entries, ∀ other ∈ entries, entry.1 ≠ other.1 →
    entry.2.1 + entry.2.2 ≤ other.2.1 ∨ other.2.1 + other.2.2 ≤ entry.2.1
  tiles : whole.storedNames.Nodup → Tiles 0 entries octets.length

/-- The entries of the layout of a record are where its parts lie. -/
theorem layout_of_raw (hfits : kind.Fits lists label parts)
    (hclear : (record label kind parts).Clear)
    (hraw : (record label kind parts).raw = .ok octets) :
    ∃ entries, (record label kind parts).layout = .ok entries ∧
      (record label kind parts).LaidOut octets entries := by
  obtain ⟨-, raws, hraws, rfl⟩ := raw_record_eq_ok.1 hraw
  obtain ⟨pieces, hnames, hparts, rfl, hpieces⟩ := exists_stored hfits hraws
  let lengths := pieces.map fun piece => piece.octets.length
  let zipped := kind.orderedNames.zip (offsets 0 lengths)
  have hmem {piece : Stored} (h : piece ∈ pieces) : piece.part ∈ kind.inOrder parts :=
    hparts ▸ List.mem_map_of_mem h
  have hsize : ∀ piece ∈ pieces, piece.part.size = .ok piece.octets.length := fun piece h =>
    size_of_raw (hclear.of_mem_inner (hmem h)) (hpieces piece h).2
  have hsizes : kind.inOrder (parts.map size) = lengths.map .ok := by
    rw [inOrder_map, ← hparts, List.map_map, List.map_map]
    exact List.map_congr_left hsize
  have hlayout : (record label kind parts).layout = .ok (lastEntries zipped) := by
    rw [layout, hclear.hides_eq (by decide), sizes_eq, hsizes, collect_eq_ok.2 rfl]
    rfl
  have hlength : kind.orderedNames.length = lengths.length := by
    rw [← hnames, List.length_map, List.length_map]
  have htiles : Tiles 0 zipped (pieces.map Stored.octets).flatten.length := by
    have hsum : lengths.sum = (pieces.map Stored.octets).flatten.length := by
      rw [List.length_flatten, List.map_map]
      rfl
    simpa [hsum] using tiles_offsets 0 hlength
  have hfirst : zipped.map Prod.fst = kind.orderedNames :=
    List.map_fst_zip (Nat.le_of_eq (hlength.trans (length_offsets 0 lengths).symm))
  refine ⟨lastEntries zipped, hlayout, ?_, ?_, ?_, fun hnodup => ?_⟩
  · rw [map_fst_lastEntries, hfirst, storedNames]
  · intro name offset n hentry
    have hzipped : (name, offset, n) ∈ (pieces.map Stored.name).zip (offsets 0 lengths) :=
      hnames ▸ mem_of_mem_lastEntries hentry
    obtain ⟨piece, hpiece, rfl, rfl, -, hoctets⟩ := exists_of_mem_offsets hzipped
    obtain ⟨hpart, hraw⟩ := hpieces piece hpiece
    exact ⟨piece.part, hpart, hsize piece hpiece, hraw.trans (congrArg Except.ok hoctets.symm)⟩
  · intro entry hentry other hother hne
    exact htiles.disjoint entry (mem_of_mem_lastEntries hentry) other
      (mem_of_mem_lastEntries hother) fun heq => hne (congrArg Prod.fst heq)
  · rwa [lastEntries_eq_self (hfirst ▸ hnodup)]

end Field

end ScriptedPng.Record
