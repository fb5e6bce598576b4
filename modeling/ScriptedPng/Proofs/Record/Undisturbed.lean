import ScriptedPng.Proofs.Record.Reached
import ScriptedPng.Proofs.Record.Targets

/-!
# What an update leaves undisturbed

A field is set, the value of a field is assigned, or an element is appended, after the field has
been found behind a path. If any of this fails, what can be found out is the same as before. If it
succeeds, only the field that is addressed has changed, with what is in it and what it is in.

## Main definitions

* `Visit.Relabelled` — nothing but labels has changed since.
* `Operation.Addresses` — where an update changes something.

## Main statements

* `Visit.relabels_follow` — following a path changes labels only.
* `outcome_update` — what an update changes, if it succeeds and if it fails.
* `update_undisturbed` — an update disturbs what it addresses only, and nothing if it fails.
* `disturbed_nestedColors` — an array in the array that is addressed is disturbed.
-/

namespace ScriptedPng.Record

/-! ## Following a path -/

namespace Visit

variable {α : Type} {position : Position} {whole state : Field} {targets : List Position}
  {value changed : Value} {f : Value → Value}

/-- Nothing but labels has changed since. -/
abbrev Relabelled (whole state : Field) : Prop :=
  (Value.field whole).Same (.field state)

theorem outcome_look (position : Position) (state : Field) :
    Outcome (fun value after => after = state ∧ (Value.field state).at? position = some value)
      (fun _ after => after = state) (look position state) := by
  have hget : Outcome (fun found after => after = state ∧ found = state)
      (fun _ after => after = state) ((get : Visit Field) state) := ⟨rfl, rfl⟩
  refine .bind hget ?_
  rintro whole _ ⟨rfl, rfl⟩
  cases hvalue : (Value.field whole).at? position with
  | some value => exact .pure ⟨rfl, rfl⟩
  | none => exact .throw rfl

theorem outcome_lookField (position : Position) (state : Field) :
    Outcome (fun field after => after = state ∧
        (Value.field state).at? position = some (.field field))
      (fun _ after => after = state) (lookField position state) := by
  refine .bind (outcome_look position state) ?_
  rintro value _ ⟨rfl, hvalue⟩
  split
  · exact .pure ⟨rfl, hvalue⟩
  · exact .throw rfl

theorem outcome_lift (outcome : Except Fault α) (state : Field) :
    Outcome (fun a after => after = state ∧ outcome = .ok a) (fun _ after => after = state)
      (lift outcome state) := by
  cases outcome with
  | ok a => exact ⟨rfl, rfl⟩
  | error fault => exact rfl

/-- A change leaves the whole as it is, or as the field that the whole has become. -/
theorem succeeds_change {P : Field → Prop} (hstate : P state)
    (h : ∀ field, (Value.field state).changeAt f position = .field field → P field) :
    Succeeds (fun _ => P) (change position f state) := by
  show P _
  dsimp only
  split
  · rename_i heq
    exact h _ heq
  · exact hstate

/-- A change at a position changes the whole only at the targets there. -/
theorem outcome_change (hne : targets ≠ [])
    (h : ∀ found, (Value.field state).at? position = some found → found.SameBut targets (f found)) :
    Succeeds (fun _ after =>
        (Value.field state).SameBut (targets.map (position ++ ·)) (.field after))
      (change position f state) :=
  succeeds_change (Value.Same.refl _).sameBut fun _ heq => heq ▸ Value.sameBut_changeAt hne h

/-- A change at a position changes labels only if it does so there. -/
theorem relabels_change
    (h : ∀ found, (Value.field state).at? position = some found → found.Same (f found)) :
    Succeeds (fun _ => Relabelled state) (change position f state) := by
  refine succeeds_change (.refl _) fun after heq => ?_
  rw [Relabelled, ← heq]
  exact Value.same_changeAt h

/-- Holding a part of the field at a position changes labels only. -/
theorem relabels_holdPart {field : Field} (name : String)
    (hfield : (Value.field state).at? position = some (.field field)) :
    Succeeds (fun _ => Relabelled state) (put position (field.holdPart name) state) := by
  refine relabels_change ?_
  rintro found hfound
  cases hfound.symm.trans hfield
  exact same_holdPart field name

theorem relabels_use (position : Position) (use : Use) :
    Maintains (Relabelled whole) (Visit.use position use) := by
  intro state hstate
  refine (relabels_change fun found _ => same_use use found).mono ?_ fun _ _ h => h.elim
  exact fun _ after hafter => ⟨trivial, hstate.trans hafter⟩

theorem relabels_lift (outcome : Except Fault α) :
    Maintains (Relabelled whole) (lift outcome) := by
  cases outcome with
  | ok a => exact .pure trivial
  | error fault => exact .throw trivial

theorem relabels_turnToAttribute (position : Position) (field : Field) (what : Attribute) :
    Maintains (Relabelled whole) (turnToAttribute position field what) := by
  cases what with
  | size | raw =>
    exact .bind (relabels_use _ _) fun _ _ => .bind (relabels_lift _) fun _ _ => .pure trivial
  | value | father | order => exact .pure trivial
  | _ => exact .throw trivial

theorem relabels_turnToName (field : Field) (name : String) :
    Leads (fun state => Relabelled whole state ∧
        (Value.field state).at? position = some (.field field))
      (fun _ => Relabelled whole) (fun _ => Relabelled whole)
      (turnToName position field name) := by
  have hattribute (what : Attribute) : Leads (fun state => Relabelled whole state ∧
        (Value.field state).at? position = some (.field field))
      (fun _ => Relabelled whole) (fun _ => Relabelled whole)
      (turnToAttribute position field what) := fun state hstate =>
    (relabels_turnToAttribute position field what state hstate.1).mono (fun _ _ h => h.2)
      fun _ _ h => h.2
  have hpart (place : Nat) : Leads (fun state => Relabelled whole state ∧
        (Value.field state).at? position = some (.field field))
      (fun _ => Relabelled whole) (fun _ => Relabelled whole) (do
        put position (field.holdPart name)
        pure (position ++ [Turn.part place])) := by
    rintro state ⟨hstate, hfield⟩
    exact .bind ((relabels_holdPart name hfield).mono_fault fun _ _ h => h.elim)
      fun _ after hafter => .pure (hstate.trans hafter)
  unfold turnToName
  refine .ite (fun _ => .pure fun _ h => h.1) fun _ => ?_
  split
  · split
    · exact .ite (fun _ => hpart _) fun _ => hattribute _
    · exact hattribute _
  · split
    · exact .ite (fun _ => hpart _) fun _ => .throw fun _ h => h.1
    · exact .throw fun _ h => h.1

theorem relabels_take (position : Position) (step : Step) :
    Maintains (Relabelled whole) (take position step) := by
  intro state hstate
  refine .bind ((outcome_look position state).unchanged fun _ => ⟨trivial, hstate⟩) ?_
  rintro value _ ⟨rfl, hvalue⟩
  split
  · exact Ensures.bind (relabels_lift _) (fun _ _ => .pure trivial) _ hstate
  · exact (relabels_turnToName _ _ _ ⟨hstate, hvalue⟩).mono (fun _ _ h => ⟨trivial, h⟩)
      fun _ _ h => ⟨trivial, h⟩
  · exact .ite (fun _ => .pure ⟨trivial, hstate⟩) fun _ => .throw ⟨trivial, hstate⟩
  · exact .throw ⟨trivial, hstate⟩

/-- Following a path changes labels only. -/
theorem relabels_follow (path : List Step) : Maintains (Relabelled whole) (follow path) :=
  .foldlM (fun position step _ => relabels_take position step) trivial path

/-- Following a path tells a position, and changes labels only. -/
theorem outcome_follow (path : List Step) (whole : Field) :
    Outcome (fun position state => follow path whole = .ok position state ∧ Relabelled whole state)
      (fun _ => Relabelled whole) (follow path whole) := by
  have hkept := relabels_follow path whole (Value.Same.refl (.field whole))
  cases hpath : follow path whole with
  | ok position state =>
    rw [hpath] at hkept
    exact ⟨rfl, hkept.2⟩
  | error fault state =>
    rw [hpath] at hkept
    exact hkept.2

/-! ## Changes of one field -/

/-- What is at a position is replaced by something that is the same but for the targets. -/
theorem outcome_put (hne : targets ≠ []) (h : Relabelled whole state)
    (hvalue : (Value.field state).at? position = some value)
    (hchanged : value.SameBut targets changed) :
    Outcome (fun _ after =>
        (Value.field whole).SameBut (targets.map (position ++ ·)) (.field after))
      (fun _ => Relabelled whole) (change position (fun _ => changed) state) := by
  refine (outcome_change hne ?_).mono (fun _ after hafter => h.sameBut.trans hafter)
    fun _ _ h => h.elim
  rintro found hfound
  cases hfound.symm.trans hvalue
  exact hchanged

/-- Setting what stands under a name in a field changes the field there only, and nothing but labels
if it fails. -/
theorem outcome_setName (name : String) (value : Value) (h : Relabelled whole state) :
    Outcome (fun _ after => ∃ field, (Value.field whole).at? position = some (.field field) ∧
        (Value.field whole).SameBut ((field.targets name).map (position ++ ·)) (.field after))
      (fun _ => Relabelled whole) (setName position name value state) := by
  refine .bind ((outcome_lookField position state).unchanged fun _ => h) ?_
  rintro field _ ⟨rfl, hfield⟩
  refine .bind ((relabels_holdPart name hfield).mono_fault fun _ _ h => h.elim) ?_
  intro _ middle hmiddle
  replace hmiddle : Relabelled whole middle := h.trans hmiddle
  refine .bind ((outcome_lookField position middle).unchanged fun _ => hmiddle) ?_
  rintro held _ ⟨rfl, hheld⟩
  refine .bind ((outcome_lift _ _).unchanged fun _ => hmiddle) ?_
  rintro changed _ ⟨rfl, hchanged⟩
  obtain ⟨found, hfound, hbare⟩ := (hmiddle position).exists_field hheld
  have htargets : held.targets name = found.targets name := by
    rw [← held.targets_bare, hbare, found.targets_bare]
  refine (outcome_put (held.targets_ne_nil name) hmiddle hheld
    (Field.sameBut_set hchanged)).mono_post ?_
  exact fun _ after hafter => ⟨found, hfound, htargets ▸ hafter⟩

end Visit

/-! ## Updates -/

/-- Where an update of a field changes something: at the field that is set, at the field whose value
is assigned, or at the place of the element that is added. -/
inductive Operation.Addresses (whole : Field) : Operation → List Position → Prop
  | set {path : List Step} {name : String} {given : Except Fault Value} {position : Position}
      {field state : Field} (hpath : Visit.follow path whole = .ok position state)
      (hfield : (Value.field whole).at? position = some (.field field)) :
      Addresses whole (.set (path ++ [.name name]) given)
        ((field.targets name).map (position ++ ·))
  | assign {path : List Step} {given : Except Fault Value} {position : Position} {state : Field}
      (hpath : Visit.follow path whole = .ok position state) :
      Addresses whole (.assign path given) [position]
  | append {path : List Step} {given : Except Fault Value} {position : Position} {value : Value}
      {state : Field} (hpath : Visit.follow path whole = .ok position state)
      (hvalue : (Value.field whole).at? position = some value) :
      Addresses whole (.append path given) [position ++ value.slot]

/-- An update has succeeded and changed what it addresses only, or it has failed and changed labels
only. -/
abbrev Operation.Confined (update : Operation) (whole : Field)
    (result : EStateM.Result Fault Field Unit) : Prop :=
  Outcome (fun _ after => ∃ targets, update.Addresses whole targets ∧
    (Value.field whole).SameBut targets (.field after)) (fun _ => Visit.Relabelled whole) result

namespace Visit

theorem outcome_set (path : List Step) (given : Except Fault Value) (whole : Field) :
    (Operation.set path given).Confined whole (set path given whole) := by
  cases hlast : path.getLast? with
  | none =>
    rw [set, hlast]
    exact .throw (.refl _)
  | some last =>
    obtain ⟨outer, rfl⟩ := List.getLast?_eq_some_iff.1 hlast
    rw [set, hlast]
    dsimp only
    rw [List.dropLast_concat]
    refine .bind (outcome_follow outer whole) fun position state hstate => ?_
    refine .bind ((outcome_lift given state).unchanged fun _ => hstate.2) ?_
    rintro value _ ⟨rfl, -⟩
    cases last with
    | place index => exact .throw hstate.2
    | name name =>
      refine (outcome_setName name value hstate.2).mono_post ?_
      exact fun _ after ⟨field, hfield, hafter⟩ => ⟨_, .set hstate.1 hfield, hafter⟩

theorem outcome_assign (path : List Step) (given : Except Fault Value) (whole : Field) :
    (Operation.assign path given).Confined whole (assign path given whole) := by
  refine .bind (outcome_follow path whole) fun position state hstate => ?_
  refine .bind ((outcome_lift given state).unchanged fun _ => hstate.2) ?_
  rintro value _ ⟨rfl, -⟩
  refine (outcome_setName _ value hstate.2).mono_post ?_
  rintro _ after ⟨field, -, hafter⟩
  refine ⟨_, .assign hstate.1, fun another hanother => ?_⟩
  refine hafter another (List.forall_mem_map.2 fun target _ => ?_)
  exact (hanother _ List.mem_cons_self).append target

theorem outcome_append (path : List Step) (given : Except Fault Value) (whole : Field) :
    (Operation.append path given).Confined whole (append path given whole) := by
  refine .bind (outcome_follow path whole) fun position state hstate => ?_
  refine .bind ((outcome_look position state).unchanged fun _ => hstate.2) ?_
  rintro value state ⟨rfl, hvalue⟩
  obtain ⟨found, hfound, hbare⟩ := (hstate.2 position).exists_at hvalue
  have hslot : found.slot = value.slot := by rw [← found.slot_bare, ← hbare, value.slot_bare]
  have haddresses : (Operation.append path given).Addresses whole [position ++ value.slot] :=
    hslot ▸ .append hstate.1 hfound
  have hput {changed : Value} (hchanged : value.SameBut [value.slot] changed) :
      (Operation.append path given).Confined whole (change position (fun _ => changed) state) :=
    (outcome_put (List.cons_ne_nil _ []) hstate.2 hvalue hchanged).mono_post
      fun _ _ hafter => ⟨_, haddresses, hafter⟩
  cases value with
  | list items =>
    refine .bind ((outcome_lift given state).unchanged fun _ => hstate.2) ?_
    rintro item _ ⟨rfl, -⟩
    exact hput (Value.sameBut_concat items item)
  | field inner =>
    cases inner with
    | array label element current =>
      refine .bind ((outcome_lift given state).unchanged fun _ => hstate.2) ?_
      rintro item _ ⟨rfl, -⟩
      refine .bind ((outcome_lift _ _).unchanged fun _ => hstate.2) ?_
      rintro changed _ ⟨rfl, hchanged⟩
      exact hput (Field.sameBut_append hchanged)
    | _ => exact .throw hstate.2
  | _ => exact .throw hstate.2

end Visit

/-- What an update changes, if it succeeds and if it fails. -/
theorem outcome_update (update : Operation) (hupdate : update.given?.isSome) (whole : Field) :
    update.Confined whole (update.run whole) := by
  cases update with
  | set path given => exact Visit.outcome_set path given whole
  | assign path given => exact Visit.outcome_assign path given whole
  | append path given => exact Visit.outcome_append path given whole
  | _ => cases hupdate

/-- An update of a field that fails leaves everything as it was. One that succeeds changes what it
addresses, with what is in it, and what it is in; everything else is as it was. -/
theorem update_undisturbed (update : Operation) (hupdate : update.given?.isSome) (whole : Field) :
    (∀ fault after, update.run whole = .error fault after →
      ∀ position : Position, position.Undisturbed whole after) ∧
    (∀ after, update.run whole = .ok () after →
      ∃ targets, update.Addresses whole targets ∧
        ∀ position : Position, (∀ target ∈ targets, position.Apart target) →
          position.Undisturbed whole after) := by
  have houtcome := outcome_update update hupdate whole
  constructor
  · intro fault after hrun position
    rw [hrun] at houtcome
    exact (houtcome position).undisturbed
  · intro after hrun
    rw [hrun] at houtcome
    obtain ⟨targets, haddresses, hsame⟩ := houtcome
    exact ⟨targets, haddresses, fun position hapart => (hsame position hapart).undisturbed⟩

/-- No octet is 300, so that the failure to set the first part of a record leaves a mark only. -/
theorem update_undisturbed_badOctet :
    (Operation.set [.name "red"] (.ok (.list [.integer 300]))).given?.isSome = true ∧
    (Operation.set [.name "red"] (.ok (.list [.integer 300]))).run (pairRecord false [7, 8]) =
      .error .badOctet (pairRecord true [7, 8]) ∧
    ∀ position : Position,
      position.Undisturbed (pairRecord false [7, 8]) (pairRecord true [7, 8]) :=
  ⟨rfl, rfl,
    (update_undisturbed (.set [.name "red"] (.ok (.list [.integer 300]))) rfl _).1 .badOctet _ rfl⟩

/-- A class of records with an array of entries of a palette. -/
def colorsClass : Class :=
  ⟨"Colors", [6, 0], ["entries"], [("entries", .array .fresh ⟨3, "PLTEEntry"⟩ (.list []))]⟩

/-- A record of this class, with the value of the array. -/
def colorsRecord (held : Bool) (value : Value) : Field :=
  .record .fresh ⟨"Colors", [6, 0], ["entries"], [0]⟩
    [.array (.mk "entries" "Colors" held []) ⟨3, "PLTEEntry"⟩ value]

/-- A record of this class, in which the value of the array is an array. -/
def nestedColors (items : List Value) : Field :=
  colorsRecord true (.field (.array .fresh ⟨3, "PLTEEntry"⟩ (.list items)))

/-- The class is declared, a record of it is created, and an array is assigned to the array. -/
theorem reached_nestedColors : Reached ⟨6, Png.registry.classes ++ [colorsClass]⟩
    (.field (nestedColors [])) := by
  have hname : "Colors".contains '\x00' = false := by simp
  have hdeclared : Png.registry.declare "Colors" ["Chunk"]
      [("entries", .array "PLTEEntry" (.list []))] =
        .ok ⟨6, Png.registry.classes ++ [colorsClass]⟩ := by
    simp only [Registry.declare, hname, Bool.false_eq_true, if_false]
    rfl
  have hcreated : Registry.value ⟨6, Png.registry.classes ++ [colorsClass]⟩
      (.record "Colors" []) = .ok (.field (colorsRecord false (.list []))) := rfl
  have hgiven : Registry.value ⟨6, Png.registry.classes ++ [colorsClass]⟩
      (.field (.array "PLTEEntry" (.list []))) =
        .ok (.field (.array .fresh ⟨3, "PLTEEntry"⟩ (.list []))) := rfl
  have hassign : (ended ((Operation.assign [.name "entries"]
      (.ok (.field (.array .fresh ⟨3, "PLTEEntry"⟩ (.list []))))).run
        (colorsRecord false (.list [])))).2 = nestedColors [] := rfl
  have hregistry := Registry.Declared.start.declare hdeclared
  rw [← hassign]
  refine .operated (.described hregistry hcreated) ?_
  rintro value ⟨⟩
  exact .described hregistry hgiven

/-- What is appended to an array whose value is an array is in both. The inner one does not contain
the outer one, which is addressed, and has become larger. -/
theorem disturbed_nestedColors :
    let entry (label : Label) : Value := .field (entryRecord label false 0)
    let after := nestedColors [entry (.mk none "ArrayField" false [])]
    Reached ⟨6, Png.registry.classes ++ [colorsClass]⟩ (.field (nestedColors [])) ∧
    (Operation.append [.name "entries"] (.ok (entry .fresh))).run (nestedColors []) =
      .ok () after ∧
    Visit.follow [.name "entries"] (nestedColors []) = .ok [.part 0] (nestedColors []) ∧
    ¬ [Turn.part 0, .content] <+: [Turn.part 0] ∧
    ¬ Position.Undisturbed (nestedColors []) after [.part 0, .content] := by
  refine ⟨reached_nestedColors, rfl, rfl, fun hleads => ?_, fun hundisturbed => ?_⟩
  · exact absurd hleads.length_le (by decide)
  · -- There have been no octets before, and now there are three.
    cases hundisturbed with
    | some halike => cases halike.size

end ScriptedPng.Record
