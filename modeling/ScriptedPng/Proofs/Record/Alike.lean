import ScriptedPng.Proofs.Record.Sound
import ScriptedPng.Record.Text

/-!
# Fields that differ in labels only

What is known of a field besides its value has no part in what can be found out about it: its value,
its octets, its size and its layout. An operation that finds something out changes labels only.

## Main definitions

* `Field.bare` — a field without labels.
* `Field.Alike` — what can be found out about two fields is the same.
* `Value.Same` — at each position of two values there is the same, labels apart.
* `Position.Undisturbed` — what can be found out at a position is the same as before.

## Main statements

* `Value.SameAt.undisturbed` — labels have no part in what can be found out at a position.
* `same_hold`, `same_use` — holding and using change labels only.
-/

namespace ScriptedPng.Record

/-! ## Fields without labels -/

mutual

/-- The field without what is known of it besides its value; the same for the fields in it. -/
def Field.bare : Field → Field
  | .number _ role format order choices value =>
    .number .fresh role format order choices value.bare
  | .octets _ length value => .octets .fresh length value
  | .array _ element value => .array .fresh element value.bare
  | .record _ kind parts => .record .fresh kind (Field.allBare parts)
  | .plain _ value => .plain .fresh value.bare

/-- The same for each of several fields. -/
def Field.allBare : List Field → List Field
  | [] => []
  | field :: rest => field.bare :: Field.allBare rest

/-- The same for the fields in a value. -/
def Value.bare : Value → Value
  | .list items => .list (Value.allBare items)
  | .field field => .field field.bare
  | value => value

/-- The same for the fields in several values. -/
def Value.allBare : List Value → List Value
  | [] => []
  | value :: rest => value.bare :: Value.allBare rest

end

theorem allBare_eq (parts : List Field) : Field.allBare parts = parts.map Field.bare := by
  induction parts with
  | nil => rfl
  | cons part rest ih => rw [Field.allBare, ih, List.map_cons]

theorem valueAllBare_eq (items : List Value) : Value.allBare items = items.map Value.bare := by
  induction items with
  | nil => rfl
  | cons item rest ih => rw [Value.allBare, ih, List.map_cons]

theorem bare_mapLabel (f : Label → Label) (whole : Field) :
    (whole.mapLabel f).bare = whole.bare := by
  cases whole <;> rfl

/-! ## What can be found out -/

theorem numberRaw_bare (format : IntegerFormat) (order : ByteOrder) (choices : Option Enumeration)
    (value : Value) :
    numberRaw format order choices value.bare = numberRaw format order choices value := by
  cases value <;> rfl

mutual

/-- Labels have no part in the octets of a field. -/
theorem Field.raw_bare : (field : Field) → field.bare.raw = field.raw
  | .number _ _ format order choices value => numberRaw_bare format order choices value
  | .octets .. | .plain .. => rfl
  | .array _ _ value => Value.rawElements_bare value
  | .record _ kind parts => by simp only [Field.bare, Field.raw, Field.raws_bare parts]

theorem Field.raws_bare : (parts : List Field) →
    Field.raws (Field.allBare parts) = Field.raws parts
  | [] => rfl
  | field :: rest => by
    rw [Field.allBare, Field.raws, Field.raws, Field.raw_bare field, Field.raws_bare rest]

theorem Value.rawElements_bare : (value : Value) → value.bare.rawElements = value.rawElements
  | .list items => by simp only [Value.bare, Value.rawElements, Value.raws_bare items]
  | .field (.array _ _ value) => Value.rawElements_bare value
  | .field (.number ..) | .field (.octets ..) | .field (.record ..) | .field (.plain ..) => rfl
  | .null | .integer _ | .octets _ | .member _ => rfl

theorem Value.raws_bare : (items : List Value) →
    Value.raws (Value.allBare items) = Value.raws items
  | [] => rfl
  | .field field :: rest => by
    simp only [Value.allBare, Value.bare, Value.raws, Field.raw_bare field, Value.raws_bare rest]
  | .list _ :: rest | .null :: rest | .integer _ :: rest | .octets _ :: rest
  | .member _ :: rest => by
    simp only [Value.allBare, Value.bare, Value.raws, Value.raws_bare rest]

end

mutual

/-- Labels have no part in the size of a field. -/
theorem Field.size_bare : (field : Field) → field.bare.size = field.size
  | .number .. | .octets .. | .plain .. => rfl
  | .array _ _ value => congrArg (Except.map List.length) (Value.rawElements_bare value)
  | .record _ kind parts => by simp only [Field.bare, Field.size, Field.allSizes_bare parts]

theorem Field.allSizes_bare : (parts : List Field) →
    Field.sizes (Field.allBare parts) = Field.sizes parts
  | [] => rfl
  | field :: rest => by
    rw [Field.allBare, Field.sizes, Field.sizes, Field.size_bare field, Field.allSizes_bare rest]

end

/-- Labels have no part in the layout of a record. -/
theorem Field.layout_bare (field : Field) : field.bare.layout = field.layout := by
  cases field with
  | record label kind parts => simp only [Field.bare, Field.layout, Field.allSizes_bare parts]
  | _ => rfl

mutual

/-- Labels have no part in the value of a field. -/
theorem Field.shown_bare : (field : Field) → field.bare.shown = field.shown
  | .number _ _ _ _ _ value | .array _ _ value | .plain _ value => Value.shown_bare value
  | .octets .. => rfl
  | .record _ kind parts => by simp only [Field.bare, Field.shown, Field.allShown_bare parts]

theorem Field.allShown_bare : (parts : List Field) →
    Field.allShown (Field.allBare parts) = Field.allShown parts
  | [] => rfl
  | field :: rest => by
    rw [Field.allBare, Field.allShown, Field.allShown, Field.shown_bare field,
      Field.allShown_bare rest]

theorem Value.shown_bare : (value : Value) → value.bare.shown = value.shown
  | .list items => by simp only [Value.bare, Value.shown, Value.itemsShown_bare items]
  | .null | .integer _ | .octets _ | .member _ | .field _ => rfl

theorem Value.itemsShown_bare : (items : List Value) →
    Value.itemsShown (Value.allBare items) = Value.itemsShown items
  | [] => rfl
  | .field field :: rest => by
    simp only [Value.allBare, Value.bare, Value.itemsShown, Field.shown_bare field,
      Value.itemsShown_bare rest]
  | .list _ :: rest | .null :: rest | .integer _ :: rest | .octets _ :: rest
  | .member _ :: rest => by
    simp only [Value.allBare, Value.bare, Value.itemsShown, Value.itemsShown_bare rest]

end

/-- What can be found out about two fields is the same. -/
structure Field.Alike (field other : Field) : Prop where
  shown : other.shown = field.shown
  raw : other.raw = field.raw
  size : other.size = field.size
  layout : other.layout = field.layout

/-- The same for two values. The items of lists are at positions of their own. -/
def Value.Alike : Value → Value → Prop
  | .field found, .field other => found.Alike other
  | .list items, .list others => others.length = items.length
  | value, other => other = value

theorem Field.alike_of_bare_eq {field other : Field} (h : other.bare = field.bare) :
    field.Alike other where
  shown := by rw [← other.shown_bare, h, field.shown_bare]
  raw := by rw [← other.raw_bare, h, field.raw_bare]
  size := by rw [← other.size_bare, h, field.size_bare]
  layout := by rw [← other.layout_bare, h, field.layout_bare]

theorem Value.alike_of_bare_eq {value other : Value} (h : other.bare = value.bare) :
    value.Alike other := by
  cases value with
  | field field =>
    cases other with
    | field other => exact Field.alike_of_bare_eq (Value.field.inj h)
    | _ => cases h
  | list items =>
    cases other with
    | list others =>
      have hbare := Value.list.inj h
      rw [valueAllBare_eq, valueAllBare_eq] at hbare
      have hlength := congrArg List.length hbare
      rwa [List.length_map, List.length_map] at hlength
    | _ => cases h
  | _ =>
    cases other with
    | field | list => cases h
    | _ => exact h

/-! ## The same apart from labels -/

namespace Value

variable {value other middle inner : Value} {turn : Turn} {position : Position}

/-- At a position of two values there is the same, labels apart. -/
def SameAt (position : Position) (value other : Value) : Prop :=
  (other.at? position).map bare = (value.at? position).map bare

/-- At each position of two values there is the same, labels apart. -/
def Same (value other : Value) : Prop :=
  ∀ position, SameAt position value other

theorem SameAt.trans (h : SameAt position value middle) (h' : SameAt position middle other) :
    SameAt position value other :=
  Eq.trans h' h

/-- What is at the position of the one has something bare in common with what is there in the
other. -/
theorem SameAt.exists_at (h : SameAt position value other)
    (hinner : other.at? position = some inner) :
    ∃ found, value.at? position = some found ∧ inner.bare = found.bare := by
  rw [SameAt, hinner] at h
  obtain ⟨found, hfound, heq⟩ := Option.map_eq_some_iff.1 h.symm
  exact ⟨found, hfound, heq.symm⟩

theorem SameAt.exists_field {field : Field} (h : SameAt position value other)
    (hfield : other.at? position = some (.field field)) :
    ∃ found, value.at? position = some (.field found) ∧ field.bare = found.bare := by
  obtain ⟨inner, hinner, heq⟩ := h.exists_at hfield
  cases inner with
  | field found => exact ⟨found, hinner, Value.field.inj heq⟩
  | _ => cases heq

namespace Same

theorem refl (value : Value) : Same value value :=
  fun _ => rfl

theorem trans (h : Same value middle) (h' : Same middle other) : Same value other :=
  fun position => (h position).trans (h' position)

theorem bare_eq (h : Same value other) : other.bare = value.bare :=
  Option.some.inj (h [])

end Same

/-- Behind a turn there is the same if the turn leads to the same. -/
theorem sameAt_cons {rel : Value → Value → Prop}
    (hturn : Option.Rel rel (value.turn? turn) (other.turn? turn))
    (hrel : ∀ inner inner', rel inner inner' → SameAt position inner inner') :
    SameAt (turn :: position) value other := by
  show ((other.turn? turn).bind (·.at? position)).map bare =
    ((value.turn? turn).bind (·.at? position)).map bare
  generalize value.turn? turn = found at hturn
  generalize other.turn? turn = found' at hturn
  cases hturn with
  | some h => exact hrel _ _ h
  | none => rfl

theorem rel_refl {rel : Value → Value → Prop} (h : ∀ value, rel value value)
    (found : Option Value) : Option.Rel rel found found := by
  cases found with
  | none => exact .none
  | some value => exact .some (h value)

/-- Two values are the same if they are so at first sight, and behind each turn. -/
theorem same_of_turns (hbare : other.bare = value.bare)
    (hturns : ∀ turn, Option.Rel Same (value.turn? turn) (other.turn? turn)) :
    Same value other := by
  intro position
  cases position with
  | nil => exact congrArg some hbare
  | cons turn rest => exact sameAt_cons (hturns turn) fun _ _ h => h rest

end Value

/-- What can be found out at a position is the same after a change as before. -/
def Position.Undisturbed (whole after : Field) (position : Position) : Prop :=
  Option.Rel Value.Alike ((Value.field whole).at? position) ((Value.field after).at? position)

/-- Labels have no part in what can be found out at a position. -/
theorem Value.SameAt.undisturbed {whole after : Field} {position : Position}
    (h : SameAt position (.field whole) (.field after)) : position.Undisturbed whole after := by
  unfold SameAt at h
  unfold Position.Undisturbed
  generalize (Value.field whole).at? position = found at h
  generalize (Value.field after).at? position = found' at h
  match found, found', h with
  | none, none, _ => exact .none
  | some value, some other, h => exact .some (alike_of_bare_eq (Option.some.inj h))

/-! ## Holding -/

/-- Turns depend on nothing of a label but what can be looked up. -/
theorem turn?_mapLabel {f : Label → Label} {whole : Field} {turn : Turn}
    (hf : ∀ name, turn = .attached name → (f whole.label).lookup name = whole.label.lookup name) :
    (Value.field (whole.mapLabel f)).turn? turn = (Value.field whole).turn? turn := by
  cases turn with
  | attached name => cases whole <;> exact hf name rfl
  | _ => cases whole <;> rfl

/-- Holding a field changes its label only. -/
theorem same_hold (part : Field) : (Value.field part).Same (.field part.hold) := by
  refine Value.same_of_turns (congrArg Value.field (bare_mapLabel _ _)) fun turn => ?_
  rw [Field.hold, turn?_mapLabel fun _ _ => rfl]
  exact Value.rel_refl .refl _

/-! ## Use -/

mutual

/-- Using a field changes labels only. -/
theorem Field.bare_use (use : Use) : (field : Field) → (field.use use).bare = field.bare
  | .number label role format order choices value => by
    simp only [Field.use, Field.bare, apply_ite Value.bare, Value.bare_use use value, ite_self]
  | .octets .. => rfl
  | .array label element value => by simp only [Field.use, Field.bare, Value.bare_use use value]
  | .record label kind parts => by
    simp only [Field.use, Field.bare, Field.bare_useParts use _ _ _ parts]
  | .plain label value => by
    simp only [Field.use, Field.bare, apply_ite Value.bare, Value.bare_use use value, ite_self]

theorem Field.bare_useParts (use : Use) (stored entered : List Nat) (place : Nat) :
    (parts : List Field) →
      Field.allBare (Field.useParts use stored entered place parts) = Field.allBare parts
  | [] => rfl
  | part :: rest => by
    have hpart : (if entered.contains place then part.use use else part).bare = part.bare := by
      rw [apply_ite Field.bare, Field.bare_use use part, ite_self]
    rw [Field.useParts, Field.allBare, Field.allBare, Field.bare_useParts use stored entered _ rest]
    split
    · rw [Field.hold, bare_mapLabel, hpart]
    · rw [hpart]

theorem Value.bare_use (use : Use) : (value : Value) → (value.use use).bare = value.bare
  | .list items => by simp only [Value.use, Value.bare, Value.bare_useAll use items]
  | .field field => by simp only [Value.use, Value.bare, Field.bare_use use field]
  | .null | .integer _ | .octets _ | .member _ => rfl

theorem Value.bare_useAll (use : Use) : (items : List Value) →
    Value.allBare (Value.useAll use items) = Value.allBare items
  | [] => rfl
  | value :: rest => by
    rw [Value.useAll, Value.allBare, Value.allBare, Value.bare_use use value,
      Value.bare_useAll use rest]

end

/-- What becomes of something in a value by an operation on the value. -/
inductive Used (use : Use) : Value → Value → Prop
  | kept (value : Value) : Used use value value
  | used (value : Value) : Used use value (value.use use)
  | held {part after : Field} (h : Used use (.field part) (.field after)) :
      Used use (.field part) (.field after.hold)

theorem used_useParts (use : Use) (stored entered : List Nat) (start place : Nat)
    (parts : List Field) :
    Option.Rel (Used use) (parts[place]?.map .field)
      ((Field.useParts use stored entered start parts)[place]?.map .field) := by
  induction parts generalizing start place with
  | nil => exact .none
  | cons part rest ih =>
    cases place with
    | succ place => exact ih (start + 1) place
    | zero =>
      have hpart : Used use (.field part)
          (.field (if entered.contains start then part.use use else part)) := by
        split
        · exact .used (.field part)
        · exact .kept _
      refine .some ?_
      split
      · exact .held hpart
      · exact hpart

/-- Behind each turn there is the same as before, used or held perhaps. -/
theorem used_turn? (use : Use) (value : Value) (turn : Turn) :
    Option.Rel (Used use) (value.turn? turn) ((value.use use).turn? turn) := by
  have hkept (found : Option Value) : Option.Rel (Used use) found found :=
    Value.rel_refl .kept found
  have hchosen (inner : Value) :
      Used use inner (if use.values then inner.use use else inner) := by
    split
    · exact .used inner
    · exact .kept inner
  cases value with
  | list items =>
    cases turn with
    | item place =>
      simp only [Value.use, Value.turn?, useAll_eq, List.getElem?_map]
      cases items[place]? with
      | none => exact .none
      | some item => exact .some (.used item)
    | _ => exact hkept _
  | field whole =>
    cases turn with
    | part place =>
      cases whole with
      | record label kind parts => exact used_useParts use _ _ 0 place parts
      | _ => exact hkept _
    | content =>
      cases whole with
      | number | plain => exact .some (hchosen _)
      | array => exact .some (.used _)
      | octets | record => exact hkept _
    | _ => cases whole <;> exact hkept _
  | _ => exact hkept _

/-- By induction on the position, whatever has become of the value. -/
theorem Used.same {use : Use} {value after : Value} (h : Used use value after) :
    value.Same after := by
  intro position
  induction position generalizing value after with
  | nil =>
    induction h with
    | kept => rfl
    | used value => exact congrArg some (value.bare_use use)
    | @held part after _ ih => exact ih.trans (same_hold after [])
  | cons turn rest ih =>
    induction h with
    | kept => rfl
    | used value => exact Value.sameAt_cons (used_turn? use value turn) fun _ _ hused => ih hused
    | @held part after _ hsame => exact hsame.trans (same_hold after _)

/-- An operation that finds something out changes labels only. -/
theorem same_use (use : Use) (value : Value) : value.Same (value.use use) :=
  (Used.used value).same

end ScriptedPng.Record
