import ScriptedPng.Proofs.Outcome
import ScriptedPng.Proofs.Record.Registered

/-!
# Operations on sound records

Whatever becomes of an operation at the end of a path, the field is sound afterwards if it was
before, and so is what the operation takes from it.

## Main definitions

* `Visit.Keeps` — whatever becomes of an operation, the field goes on to be sound.
* `Record.Operation` — the operations on a field.

## Main statements

* `Visit.keeps_follow` — a path leads to something sound.
* `Operation.keeps_run` — operations keep a field sound.
-/

namespace ScriptedPng.Record

/-! ## Positions -/

section

variable {lists : List (List String)} {position outer : Position}

theorem Position.Sound.append (h : position.Sound lists) (houter : outer.Sound lists) :
    Position.Sound lists (position ++ outer) :=
  List.forall_mem_append.2 ⟨h, houter⟩

/-- A turn to something that is there. -/
theorem Position.sound_singleton {turn : Turn} (h : turn.Sound lists) :
    Position.Sound lists [turn] :=
  List.forall_mem_singleton.2 h

theorem Position.Sound.father? {field : Field} (h : position.Sound lists)
    (houter : position.father? field = some outer) : outer.Sound lists := by
  have hreverse : ∀ turn ∈ position.reverse, turn.Sound lists := fun turn hmem =>
    h turn (List.mem_reverse.1 hmem)
  unfold Position.father? at houter
  split at houter
  · cases houter
    exact h.append (Position.sound_singleton trivial)
  split at houter
  · cases houter
  · split at houter
    · rename_i heq
      cases houter
      intro turn hmem
      exact hreverse turn (heq ▸ List.mem_cons_of_mem _ (List.mem_reverse.1 hmem))
    · rename_i heq
      cases houter
      intro turn hmem
      exact hreverse turn
        (heq ▸ List.mem_cons_of_mem _ (List.mem_cons_of_mem _ (List.mem_reverse.1 hmem)))
    · cases houter

theorem Value.sound_turnsTo {index : Int} {value : Value}
    (h : value.turnsTo index = .ok position) : position.Sound lists := by
  fun_induction Value.turnsTo index value generalizing position with
  | case1 items =>
    obtain ⟨place, -, h⟩ := bind_eq_ok.1 h
    cases h
    exact Position.sound_singleton trivial
  | case2 items =>
    obtain ⟨place, -, h⟩ := bind_eq_ok.1 h
    cases h
    exact Position.sound_singleton trivial
  | case3 label element value ih =>
    obtain ⟨rest, hrest, h⟩ := bind_eq_ok.1 h
    cases h
    exact List.forall_mem_cons.2 ⟨trivial, ih hrest⟩
  | case4 => cases h

end

/-! ## Operations -/

namespace Visit

variable {α β : Type} {lists : List (List String)} {position : Position} {field : Field}

/-- Whatever becomes of an operation, the field goes on to be sound. Something is known of the
outcome. -/
abbrev Keeps (lists : List (List String)) (post : α → Prop) (visit : Visit α) : Prop :=
  Ensures (fun field : Field => field.Sound lists) post (fun _ => True) visit

theorem keeps_get : Keeps lists (fun field : Field => field.Sound lists) get :=
  fun _ h => ⟨h, h⟩

theorem keeps_lift {post : α → Prop} {outcome : Except Fault α}
    (h : ∀ a, outcome = .ok a → post a) : Keeps lists post (lift outcome) := by
  cases outcome with
  | ok a => exact .pure (h a rfl)
  | error fault => exact .throw trivial

theorem keeps_look (h : position.Sound lists) :
    Keeps lists (fun value : Value => value.Sound lists) (look position) := by
  refine .bind keeps_get fun field hfield => ?_
  split
  · rename_i value hvalue
    exact .pure (Value.Sound.at? hfield h hvalue)
  · exact .throw trivial

theorem keeps_lookField (h : position.Sound lists) :
    Keeps lists (fun field : Field => field.Sound lists) (lookField position) := by
  refine .bind (keeps_look h) fun value hvalue => ?_
  split
  · exact .pure hvalue
  · exact .throw trivial

theorem keeps_field? : Keeps lists (fun _ => True) (field? position) := by
  refine .bind keeps_get fun field _ => ?_
  split <;> exact .pure trivial

theorem keeps_change {f : Value → Value} (h : position.Sound lists)
    (hf : ∀ value : Value, value.Sound lists → (f value).Sound lists) :
    Keeps lists (fun _ => True) (change position f) := by
  intro field hfield
  refine ⟨trivial, ?_⟩
  have hchanged := Value.Sound.changeAt hf hfield h
  dsimp only
  split
  · rename_i changed heq
    rwa [heq] at hchanged
  · exact hfield

theorem keeps_put (h : position.Sound lists) (hfield : field.Sound lists) :
    Keeps lists (fun _ => True) (put position field) :=
  keeps_change h fun _ _ => hfield

theorem keeps_use (h : position.Sound lists) (use : Use) :
    Keeps lists (fun _ => True) (Visit.use position use) :=
  keeps_change h fun _ hvalue => hvalue.use use

theorem keeps_turnToAttribute (h : position.Sound lists) (field : Field) (what : Attribute) :
    Keeps lists (fun position : Position => position.Sound lists)
      (turnToAttribute position field what) := by
  have hturn {turn : Turn} (hturn : turn.Sound lists) : Position.Sound lists (position ++ [turn]) :=
    h.append (Position.sound_singleton hturn)
  cases what with
  | value => exact .pure (hturn trivial)
  | size =>
    refine .bind (keeps_use h .size) fun _ _ => .bind (keeps_lift fun _ _ => trivial) fun n _ => ?_
    exact .pure (hturn (Value.sound_of_inside rfl trivial))
  | raw =>
    refine .bind (keeps_use h .raw) fun _ _ => .bind (keeps_lift fun _ _ => trivial) fun n _ => ?_
    exact .pure (hturn (Value.sound_of_inside rfl trivial))
  | father =>
    refine .pure ?_
    cases houter : position.father? field with
    | none => exact hturn (Value.sound_of_inside rfl trivial)
    | some outer => exact h.father? houter
  | order => exact .pure (hturn (Value.sound_of_inside rfl trivial))
  | _ => exact .throw trivial

theorem keeps_turnToName (h : position.Sound lists) (hfield : field.Sound lists) (name : String) :
    Keeps lists (fun position : Position => position.Sound lists)
      (turnToName position field name) := by
  have hpart (place : Nat) : Keeps lists (fun position : Position => position.Sound lists) (do
      put position (field.holdPart name)
      pure (position ++ [.part place])) :=
    .bind (keeps_put h (hfield.holdPart name)) fun _ _ =>
      .pure (h.append (Position.sound_singleton trivial))
  unfold turnToName
  refine .ite (fun _ => .pure (h.append (Position.sound_singleton trivial))) fun _ => ?_
  split
  · have hrest := keeps_turnToAttribute h field
    split
    · exact .ite (fun _ => hpart _) fun _ => hrest _
    · exact hrest _
  · split
    · exact .ite (fun _ => hpart _) fun _ => .throw trivial
    · exact .throw trivial

theorem keeps_take (h : position.Sound lists) (step : Step) :
    Keeps lists (fun position : Position => position.Sound lists) (take position step) := by
  refine .bind (keeps_look h) fun value hvalue => ?_
  split
  · rename_i index
    have hturns : Keeps lists (fun turns : Position => turns.Sound lists)
        (lift (value.turnsTo index)) := keeps_lift fun _ => Value.sound_turnsTo
    exact .bind hturns fun turns hturns => .pure (h.append hturns)
  · exact keeps_turnToName h hvalue _
  · refine .ite (fun _ => .pure (h.append (Position.sound_singleton ?_))) fun _ => .throw trivial
    exact Value.sound_of_inside rfl trivial
  · exact .throw trivial

/-- A path leads to something sound. -/
theorem keeps_follow (path : List Step) :
    Keeps lists (fun position : Position => position.Sound lists) (follow path) :=
  .foldlM (fun _ step h => keeps_take h step) (List.forall_mem_nil _) path

/-! ## Changes -/

variable {value : Value} {given : Except Fault Value}

theorem keeps_setName (h : position.Sound lists) (name : String) (hvalue : value.Sound lists) :
    Keeps lists (fun _ => True) (setName position name value) := by
  refine .bind (keeps_lookField h) fun field hfield => ?_
  refine .bind (keeps_put h (hfield.holdPart name)) fun _ _ => ?_
  refine .bind (keeps_lookField h) fun field hfield => ?_
  refine .bind (keeps_lift fun after hafter => hfield.set hvalue hafter) fun after hafter => ?_
  exact keeps_put h hafter

variable (hgiven : ∀ value, given = .ok value → value.Sound lists)

include hgiven

theorem keeps_set (path : List Step) : Keeps lists (fun _ => True) (set path given) := by
  unfold set
  split
  · exact .throw trivial
  · refine .bind (keeps_follow _) fun position hposition => ?_
    refine .bind (keeps_lift hgiven) fun value hvalue => ?_
    split
    · exact keeps_setName hposition _ hvalue
    · exact .throw trivial

theorem keeps_assign (path : List Step) : Keeps lists (fun _ => True) (assign path given) :=
  .bind (keeps_follow path) fun _ hposition =>
    .bind (keeps_lift hgiven) fun _ hvalue => keeps_setName hposition _ hvalue

theorem keeps_append (path : List Step) : Keeps lists (fun _ => True) (append path given) := by
  refine .bind (keeps_follow path) fun position hposition => ?_
  refine .bind (keeps_look hposition) fun found hfound => ?_
  split
  · refine .bind (keeps_lift hgiven) fun value hvalue => ?_
    refine keeps_change hposition fun _ _ => Value.sound_list_iff.2 ?_
    exact List.forall_mem_append.2
      ⟨Value.sound_list_iff.1 hfound, List.forall_mem_singleton.2 hvalue⟩
  · refine .bind (keeps_lift hgiven) fun value hvalue => ?_
    refine .bind (keeps_lift fun after hafter => Field.Sound.append hfound hvalue hafter) ?_
    exact fun after hafter => keeps_put hposition hafter
  · exact .throw trivial

omit hgiven

theorem keeps_clear (path : List Step) : Keeps lists (fun _ => True) (clear path) := by
  refine .bind (keeps_follow path) fun position hposition => ?_
  refine .bind (keeps_look hposition) fun found hfound => ?_
  split
  · exact keeps_change hposition fun _ _ => Value.sound_of_inside rfl trivial
  · refine .bind (keeps_lift fun after hafter => Field.Sound.clear hfound hafter) ?_
    exact fun after hafter => keeps_put hposition hafter
  · exact .throw trivial

theorem keeps_setOrder (path : List Step) (order : Option ByteOrder) :
    Keeps lists (fun _ => True) (setOrder path order) := by
  refine .bind (keeps_follow path) fun position hposition => ?_
  split
  · exact .throw trivial
  · exact keeps_setName hposition _ (Value.sound_of_inside rfl trivial)

/-! ## Findings -/

theorem keeps_find (path : List Step) (use : Use) (f : Value → Except Fault α) :
    Keeps lists (fun _ => True) (find path use f) :=
  .bind (keeps_follow path) fun _ hposition => .bind (keeps_look hposition) fun _ _ =>
    .bind (keeps_use hposition use) fun _ _ => keeps_lift fun _ _ => trivial

theorem keeps_count (path : List Step) : Keeps lists (fun _ => True) (count path) :=
  .bind (keeps_follow path) fun _ hposition => .bind (keeps_look hposition) fun _ _ =>
    keeps_lift fun _ _ => trivial

theorem keeps_identity (path : List Step) : Keeps lists (fun _ => True) (identity path) :=
  .bind (keeps_follow path) fun _ hposition => .bind (keeps_lookField hposition) fun _ _ =>
    .pure trivial

/-! ## Packing -/

theorem keeps_surroundings (h : position.Sound lists) (field : Field) :
    Keeps lists (fun _ => True) (surroundings position field) := by
  unfold surroundings
  split
  · exact .pure trivial
  · exact .pure trivial
  · rename_i outer _ houter
    refine .bind (keeps_lookField (h.father? houter)) fun whole _ => ?_
    split
    · exact .bind keeps_field? fun _ _ => .pure trivial
    · exact .pure trivial

theorem keeps_useDependencies (h : position.Sound lists) (field : Field) :
    Keeps lists (fun _ => True) (useDependencies position field) := by
  unfold useDependencies
  split
  · split
    · exact .pure trivial
    · rename_i outer houter
      have houter := h.father? houter
      refine .forM (fun name => ?_) _
      refine .bind (keeps_lookField houter) fun whole hwhole => ?_
      refine .bind (keeps_turnToName houter hwhole name) fun there hthere => ?_
      exact keeps_use hthere _
  · exact .pure trivial

theorem keeps_pack (path : List Step) : Keeps lists (fun _ => True) (pack path) := by
  refine .bind (keeps_follow path) fun position hposition => ?_
  refine .bind (keeps_lookField hposition) fun field hfield => ?_
  refine .bind (keeps_surroundings hposition field) fun around _ => ?_
  have hpacked : (field.pack around).2.Sound lists := hfield.packWithin _ _
  refine .bind (keeps_put hposition hpacked) fun _ _ => ?_
  refine .bind (keeps_use hposition .raw) fun _ _ => ?_
  refine .bind (.tryCatch (keeps_useDependencies hposition _) fun _ => .pure trivial) fun _ _ => ?_
  exact keeps_lift fun _ _ => trivial

end Visit

/-- An operation on what is at the end of a path. -/
inductive Operation where
  | set (path : List Step) (given : Except Fault Value)
  | assign (path : List Step) (given : Except Fault Value)
  | append (path : List Step) (given : Except Fault Value)
  | clear (path : List Step)
  | setOrder (path : List Step) (order : Option ByteOrder)
  | shown (path : List Step)
  | raw (path : List Step)
  | size (path : List Step)
  | layout (path : List Step)
  | text (path : List Step)
  | description (path : List Step)
  | count (path : List Step)
  | identity (path : List Step)
  | pack (path : List Step)

namespace Operation

/-- Carries the operation out, for what becomes of the field. -/
def run : Operation → Visit Unit
  | .set path given => Visit.set path given
  | .assign path given => Visit.assign path given
  | .append path given => Visit.append path given
  | .clear path => Visit.clear path
  | .setOrder path order => Visit.setOrder path order
  | .shown path => do let _ ← Visit.shown path
  | .raw path => do let _ ← Visit.raw path
  | .size path => do let _ ← Visit.size path
  | .layout path => do let _ ← Visit.layout path
  | .text path => do let _ ← Visit.text path
  | .description path => do let _ ← Visit.description path
  | .count path => do let _ ← Visit.count path
  | .identity path => do let _ ← Visit.identity path
  | .pack path => do let _ ← Visit.pack path

/-- What the operation is given, if it takes a value. -/
def given? : Operation → Option (Except Fault Value)
  | .set _ given | .assign _ given | .append _ given => some given
  | _ => none

/-- Whatever becomes of an operation, the field goes on to be sound. -/
theorem keeps_run {lists : List (List String)} (operation : Operation)
    (hgiven : ∀ value, operation.given? = some (.ok value) → value.Sound lists) :
    Visit.Keeps lists (fun _ => True) operation.run := by
  have hfound {α : Type} {visit : Visit α} (h : Visit.Keeps lists (fun _ => True) visit) :
      Visit.Keeps lists (fun _ => True) (do let _ ← visit) := .bind h fun _ _ => .pure trivial
  cases operation with
  | set path => exact Visit.keeps_set (fun value h => hgiven value (congrArg some h)) path
  | assign path => exact Visit.keeps_assign (fun value h => hgiven value (congrArg some h)) path
  | append path => exact Visit.keeps_append (fun value h => hgiven value (congrArg some h)) path
  | clear path => exact Visit.keeps_clear path
  | setOrder path order => exact Visit.keeps_setOrder path order
  | count path => exact hfound (Visit.keeps_count path)
  | identity path => exact hfound (Visit.keeps_identity path)
  | pack path => exact hfound (Visit.keeps_pack path)
  | _ => exact hfound (Visit.keeps_find _ _ _)

end Operation

end ScriptedPng.Record
