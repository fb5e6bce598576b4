import ScriptedPng.Proofs.Record.Alike
import ScriptedPng.Record.Path

/-!
# Targets of changes

What is at a position can be changed without a change elsewhere. Setting what stands under a name in
a field, and adding an element to an array, change the field at a place of their own.

## Main definitions

* `Position.Apart` — neither position leads to the other, or beyond it.
* `Value.SameBut` — apart from some targets there is the same at each position, labels apart.
* `Field.targets`, `Value.slot` — where a field, a list or an array changes.

## Main statements

* `Value.same_changeAt`, `Value.sameBut_changeAt` — the whole changes where a part of it does.
* `Field.sameBut_set`, `Field.sameBut_append` — where changes of one field take place.
-/

namespace ScriptedPng.Record

/-! ## Replacing -/

namespace Label

variable {label : Label} {name other : String} {value : Value}

theorem lookup_detach_of_ne (h : other ≠ name) :
    (label.detach name).lookup other = label.lookup other := by
  obtain ⟨_, _, _, attached⟩ := label
  show (attached.filter (·.1 ≠ name)).lookup other = attached.lookup other
  induction attached with
  | nil => rfl
  | cons entry attached ih => grind

theorem lookup_attach_of_ne (h : other ≠ name) :
    (label.attach name value).lookup other = label.lookup other := by
  rw [lookup, attach, attached, List.lookup_cons, beq_false_of_ne h]
  exact lookup_detach_of_ne h

theorem lookup_attach_self : (label.attach name value).lookup name = some value :=
  List.lookup_cons_self

end Label

namespace Value

variable {value inner changed : Value} {turn other : Turn}

/-- Behind the turn there is what has been put there, unless it cannot be replaced. -/
theorem turn?_replace_self (h : value.turn? turn = some inner) (changed : Value) :
    (replace turn changed value).turn? turn = some changed ∨
      replace turn changed value = value := by
  unfold replace
  split
  · obtain ⟨found, hfound, -⟩ := Option.map_eq_some_iff.1 h
    obtain ⟨hlt, -⟩ := List.getElem?_eq_some_iff.1 hfound
    exact .inl (by simp [turn?, hlt])
  · rename_i whole
    exact .inl (by cases whole <;> exact Label.lookup_attach_self)
  · exact .inl rfl
  · exact .inl rfl
  · exact .inl rfl
  · obtain ⟨hlt, -⟩ := List.getElem?_eq_some_iff.1 h
    exact .inl (by simp [turn?, hlt])
  · exact .inr rfl

/-- Behind other turns nothing has changed. -/
theorem turn?_replace_of_ne (hne : other ≠ turn) (changed value : Value) :
    (replace turn changed value).turn? other = value.turn? other := by
  unfold replace
  split
  · rename_i place part label kind parts
    cases other with
    | part another =>
      have hplace : place ≠ another := fun heq => hne (congrArg Turn.part heq.symm)
      simp only [turn?, List.getElem?_set_ne hplace]
    | _ => rfl
  · rename_i name whole
    refine turn?_mapLabel ?_
    rintro another rfl
    exact Label.lookup_attach_of_ne fun heq => hne (congrArg Turn.attached heq)
  -- The contents of three kinds of fields.
  iterate 3
    cases other with
    | content => exact absurd rfl hne
    | _ => rfl
  · rename_i place items
    cases other with
    | item another =>
      have hplace : place ≠ another := fun heq => hne (congrArg Turn.item heq.symm)
      simp only [turn?, List.getElem?_set_ne hplace]
    | _ => rfl
  · rfl

/-- What differs in labels only can take the place of something. -/
theorem bare_replace (h : value.turn? turn = some inner) (hbare : changed.bare = inner.bare) :
    (replace turn changed value).bare = value.bare := by
  unfold replace
  split
  · rename_i place part label kind parts
    obtain ⟨found, hfound, rfl⟩ := Option.map_eq_some_iff.1 h
    have hpart : (parts.map Field.bare)[place]? = some part.bare := by
      rw [Value.field.inj hbare, List.getElem?_map, hfound, Option.map_some]
    simp only [bare, Field.bare, allBare_eq, List.map_set, set_eq_self hpart]
  · exact congrArg field (bare_mapLabel _ _)
  iterate 3
    cases h
    simp only [bare, Field.bare, hbare]
  · rename_i place items
    have hfound : items[place]? = some inner := h
    have hitem : (items.map bare)[place]? = some changed.bare := by
      rw [hbare, List.getElem?_map, hfound, Option.map_some]
    simp only [bare, valueAllBare_eq, List.map_set, set_eq_self hitem]
  · rfl

theorem same_replace (h : value.turn? turn = some inner) (hsame : inner.Same changed) :
    value.Same (replace turn changed value) := by
  refine same_of_turns (bare_replace h hsame.bare_eq) fun other => ?_
  have hrefl : Option.Rel Same (value.turn? other) (value.turn? other) := rel_refl .refl _
  by_cases hother : other = turn
  · subst hother
    rcases turn?_replace_self h changed with heq | heq
    · rw [h, heq]
      exact .some hsame
    · rwa [heq]
  · rwa [turn?_replace_of_ne hother]

end Value

/-- Holding a part of a record changes labels only. -/
theorem same_holdPart (whole : Field) (name : String) :
    (Value.field whole).Same (.field (whole.holdPart name)) := by
  unfold Field.holdPart
  split
  · rename_i part hpart
    cases whole with
    | record label kind parts =>
      have hturn : (Value.field (.record label kind parts)).turn? (.part (kind.names.idxOf name)) =
          some (.field part) := congrArg (Option.map Value.field) hpart
      exact Value.same_replace hturn (same_hold part)
    | _ => cases hpart
  · exact .refl _

/-! ## Positions that are apart -/

/-- Neither position leads to the other, or beyond it. -/
structure Position.Apart (position other : Position) : Prop where
  not_leads : ¬ position <+: other
  not_leads' : ¬ other <+: position

namespace Position.Apart

variable {position target rest : Position}

/-- What is apart from a position is apart from everything behind it. -/
theorem append (h : Apart position target) (rest : Position) : Apart position (target ++ rest) where
  not_leads hleads :=
    have hcases := List.prefix_or_prefix_of_prefix hleads (List.prefix_append _ _)
    hcases.elim h.not_leads h.not_leads'
  not_leads' hleads := h.not_leads' ((List.prefix_append _ _).trans hleads)

theorem of_append (position : Position) (h : Apart (position ++ rest) (position ++ target)) :
    Apart rest target where
  not_leads hleads := h.not_leads ((List.prefix_append_right_inj position).2 hleads)
  not_leads' hleads := h.not_leads' ((List.prefix_append_right_inj position).2 hleads)

theorem not_nil (h : Apart position []) : False :=
  h.not_leads' List.nil_prefix

/-- What is apart from a turn, and what is behind it, takes another turn, or is apart later on. -/
theorem exists_turn {turn : Turn} (h : Apart position (turn :: target)) :
    ∃ other rest, position = other :: rest ∧ (other = turn → Apart rest target) := by
  cases position with
  | nil => exact absurd List.nil_prefix h.not_leads
  | cons other rest =>
    refine ⟨other, rest, rfl, ?_⟩
    rintro rfl
    exact of_append [other] h

end Position.Apart

/-! ## Changes at a position -/

namespace Value

variable {value other middle : Value} {targets : List Position} {position : Position}
  {f : Value → Value}

/-- If what is at a position is the same after a change, so is the whole. -/
theorem same_changeAt (h : ∀ found, value.at? position = some found → found.Same (f found)) :
    value.Same (value.changeAt f position) := by
  induction position generalizing value with
  | nil => exact h value rfl
  | cons turn rest ih =>
    rw [changeAt]
    split
    · rename_i inner hinner
      refine same_replace hinner (ih fun found hfound => h found ?_)
      rw [at?, hinner]
      exact hfound
    · exact .refl value

/-- A change at a position changes nothing apart from it. -/
theorem at?_changeAt_of_apart {another : Position} (h : another.Apart position) (f : Value → Value)
    (value : Value) : (value.changeAt f position).at? another = value.at? another := by
  induction position generalizing another value with
  | nil => exact h.not_nil.elim
  | cons turn rest ih =>
    obtain ⟨other, another, rfl, hrest⟩ := h.exists_turn
    rw [changeAt]
    split
    · rename_i inner hinner
      by_cases hother : other = turn
      · subst hother
        rcases turn?_replace_self hinner (changeAt f rest inner) with heq | heq
        · rw [at?, at?, heq, hinner]
          exact ih (hrest rfl) inner
        · rw [heq]
      · rw [at?, at?, turn?_replace_of_ne hother]
    · rfl

/-- Behind a position there is what a change has put there, unless it cannot be replaced. -/
theorem at?_changeAt_append (position rest : Position) (f : Value → Value) (value : Value) :
    (value.changeAt f position).at? (position ++ rest) =
        ((value.at? position).map f).bind (·.at? rest) ∨
      (value.changeAt f position).at? (position ++ rest) = value.at? (position ++ rest) := by
  induction position generalizing value with
  | nil => exact .inl rfl
  | cons turn position ih =>
    rw [changeAt]
    split
    · rename_i inner hinner
      rcases turn?_replace_self hinner (changeAt f position inner) with heq | heq
      · rw [List.cons_append, at?, at?, at?, heq, hinner]
        exact ih inner
      · exact .inr (by rw [heq])
    · exact .inr rfl

/-- Apart from the targets there is the same at each position of two values, labels apart. -/
def SameBut (targets : List Position) (value other : Value) : Prop :=
  ∀ position, (∀ target ∈ targets, Position.Apart position target) → SameAt position value other

theorem Same.sameBut (h : value.Same other) : value.SameBut targets other :=
  fun position _ => h position

theorem SameBut.trans (h : value.SameBut targets middle) (h' : middle.SameBut targets other) :
    value.SameBut targets other :=
  fun position hposition => (h position hposition).trans (h' position hposition)

/-- If what is at a position has changed at the targets only, so has the whole. -/
theorem sameBut_changeAt (hne : targets ≠ [])
    (h : ∀ found, value.at? position = some found → found.SameBut targets (f found)) :
    value.SameBut (targets.map (position ++ ·)) (value.changeAt f position) := by
  intro another hanother
  have hapart : ∀ target ∈ targets, Position.Apart another (position ++ target) :=
    List.forall_mem_map.1 hanother
  by_cases hbehind : position <+: another
  · obtain ⟨rest, rfl⟩ := hbehind
    rcases at?_changeAt_append position rest f value with heq | heq
    · rw [SameAt, heq, at?_append]
      cases hfound : value.at? position with
      | none => rfl
      | some found =>
        exact h found hfound rest fun target htarget => (hapart target htarget).of_append position
    · rw [SameAt, heq]
  · obtain ⟨first, hfirst⟩ := List.exists_mem_of_ne_nil targets hne
    have hplace : Position.Apart another position :=
      ⟨fun hleads => (hapart first hfirst).not_leads (hleads.trans (List.prefix_append _ _)),
        hbehind⟩
    rw [SameAt, at?_changeAt_of_apart hplace]

end Value

/-! ## What stands under a name -/

namespace Field

/-- Where a field changes if what stands under the name is set: at the part of that name, or at what
is attached in front of it. Under other names it is the field itself that changes. -/
def targets (name : String) (field : Field) : List Position :=
  match field with
  | record _ kind parts =>
    if (named? kind.names parts name).isSome then
      [[.part (kind.names.idxOf name)], [.attached name]]
    else [[]]
  | _ => [[]]

theorem targets_ne_nil (name : String) (field : Field) : field.targets name ≠ [] := by
  unfold targets
  split
  · split <;> exact List.cons_ne_nil _ _
  · exact List.cons_ne_nil _ _

/-- Labels have no part in where a field changes. -/
theorem targets_bare (name : String) (field : Field) :
    field.bare.targets name = field.targets name := by
  cases field with
  | record label kind parts =>
    have hpart : (named? kind.names (allBare parts) name).isSome =
        (named? kind.names parts name).isSome := by
      rw [named?, allBare_eq, List.getElem?_map, Option.isSome_map, named?]
    simp only [bare, targets, hpart]
  | _ => rfl

variable {label : Label} {kind : RecordKind} {parts : List Field} {field changed : Field}
  {name : String} {value : Value} {turn : Turn}

theorem turn?_replacePart (part : Field) (hne : turn ≠ .part (kind.names.idxOf name)) :
    (Value.field ((record label kind parts).replacePart name part)).turn? turn =
      (Value.field (record label kind parts)).turn? turn :=
  Value.turn?_replace_of_ne hne (.field part.hold) (.field (record label kind parts))

/-- Setting a part of a record changes nothing behind other turns. -/
theorem turn?_setPart (h : (record label kind parts).setPart name value = .ok changed)
    (hpart : turn ≠ .part (kind.names.idxOf name)) (hattached : turn ≠ .attached name) :
    (Value.field changed).turn? turn = (Value.field (record label kind parts)).turn? turn := by
  have hlabel (f : Label → Label)
      (hf : ∀ other ≠ name, (f label).lookup other = label.lookup other) :
      (Value.field ((record label kind parts).mapLabel f)).turn? turn =
        (Value.field (record label kind parts)).turn? turn := by
    refine turn?_mapLabel fun other heq => hf other ?_
    rintro rfl
    exact hattached heq
  unfold setPart at h
  split at h
  · cases h
  · cases h
    exact (turn?_replacePart _ hpart).trans
      (hlabel (·.detach name) fun _ => Label.lookup_detach_of_ne)
  · obtain ⟨part, -, rfl⟩ := map_eq_ok.1 h
    split
    · exact hlabel _ fun _ => Label.lookup_attach_of_ne
    · exact turn?_replacePart _ hpart
  · cases h

/-- Setting what stands under a name changes the field there only. -/
theorem sameBut_set (h : field.set name value = .ok changed) :
    (Value.field field).SameBut (field.targets name) (.field changed) := by
  intro position hposition
  unfold targets at hposition
  split at hposition
  · rename_i label kind parts
    split at hposition
    · rename_i hsome
      have hset : (record label kind parts).setPart name value = .ok changed := by
        unfold set at h
        rwa [if_pos (show ((record label kind parts).part? name).isSome from hsome)] at h
      rw [List.forall_mem_cons, List.forall_mem_singleton] at hposition
      obtain ⟨turn, rest, rfl, hpart⟩ := hposition.1.exists_turn
      obtain ⟨_, _, heq, hattached⟩ := hposition.2.exists_turn
      cases heq
      have hturn := turn?_setPart hset (fun heq => (hpart heq).not_nil)
        fun heq => (hattached heq).not_nil
      rw [Value.SameAt, Value.at?, Value.at?, hturn]
    · exact (hposition _ List.mem_cons_self).not_nil.elim
  · exact (hposition _ List.mem_cons_self).not_nil.elim

end Field

/-! ## Elements -/

/-- From a list or an array, the position of the element that is added next. -/
def Value.slot : Value → Position
  | .list items => [.item items.length]
  | .field (.array _ _ value) => .content :: value.slot
  | _ => []

/-- Labels have no part in where an element is added. -/
theorem Value.slot_bare (value : Value) : value.bare.slot = value.slot := by
  induction value using Value.slot.induct with
  | case1 items => simp only [bare, slot, valueAllBare_eq, List.length_map]
  | case2 label element value ih => exact congrArg (List.cons Turn.content) ih
  | case3 value hlist harray =>
    cases value with
    | list items => exact absurd rfl (hlist items)
    | field field =>
      cases field with
      | array label element value => exact absurd rfl (harray label element value)
      | _ => rfl
    | _ => rfl

/-- Adding an item to a list changes nothing else in it. -/
theorem Value.sameBut_concat (items : List Value) (value : Value) :
    (Value.list items).SameBut [[.item items.length]] (.list (items ++ [value])) := by
  intro position hposition
  obtain ⟨turn, rest, rfl, hrest⟩ := (hposition _ List.mem_cons_self).exists_turn
  have hturn : (Value.list (items ++ [value])).turn? turn = (Value.list items).turn? turn := by
    cases turn with
    | item place =>
      have hplace : place ≠ items.length := fun heq => (hrest (congrArg Turn.item heq)).not_nil
      simp only [Value.turn?]
      grind
    | _ => rfl
  rw [Value.SameAt, Value.at?, Value.at?, hturn]

namespace Field

/-- What changes in the value of an array changes in the array behind its content only. -/
theorem sameBut_array {label : Label} {element : ClassRef} {value changed : Value}
    {target : Position} (h : value.SameBut [target] changed) :
    (Value.field (array label element value)).SameBut [.content :: target]
      (.field (array label element changed)) := by
  intro position hposition
  obtain ⟨turn, rest, rfl, hrest⟩ := (hposition _ List.mem_cons_self).exists_turn
  cases turn with
  | content => exact h rest (List.forall_mem_singleton.2 (hrest rfl))
  | _ => rfl

/-- Adding an element changes nothing else in an array. -/
theorem sameBut_append {field changed : Field} {value : Value}
    (h : field.append value = .ok changed) :
    (Value.field field).SameBut [(Value.field field).slot] (.field changed) := by
  fun_induction Field.append value field generalizing changed with
  | case1 label element item heq _ items =>
    cases h
    exact sameBut_array (Value.sameBut_concat _ _)
  | case2 label element item heq _ innerLabel innerElement inner ih =>
    obtain ⟨after, hafter, rfl⟩ := map_eq_ok.1 h
    exact sameBut_array (ih (heq ▸ hafter))
  | _ => cases h

end Field

end ScriptedPng.Record
