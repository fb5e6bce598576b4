import ScriptedPng.Proofs.Outcome

/-!
# Two runs side by side

Two actions are compared by what becomes of each one on a state of its own. As a rule both succeed
or both fail; but the second one may also break off where the first one goes on, and then something
has to be true of it however far the first one comes.

## Main definitions

* `Lockstep` — what two actions have come to.
* `Alike` — the same where neither breaks off alone.
* `Agree` — from all pairs of states that are related, two actions end alike.
* `Tracks` — the second action goes along with the first one from all pairs of states in step.

## Main statements

* `Lockstep.bind`, `Lockstep.foldEach` — the rules for sequences and loops.
* `Agree.bind` — actions that agree make sequences that do.
* `Tracks.bind`, `Tracks.forM`, `Tracks.foldEach` — actions that track each other make sequences and
  loops that do.
-/

namespace ScriptedPng

variable {ε ε' σ σ' α α' β β' : Type}

/-- Two actions have both succeeded with `post`, or both failed with `fault`, or the second one has
failed and has `lost` the first one, however that one has ended. -/
def Lockstep (post : α → σ → α' → σ' → Prop) (fault : ε → σ → ε' → σ' → Prop)
    (lost : σ → ε' → σ' → Prop) :
    EStateM.Result ε σ α → EStateM.Result ε' σ' α' → Prop
  | .ok value after, .ok value' after' => post value after value' after'
  | .ok _ after, .error failure' after' => lost after failure' after'
  | .error failure after, .error failure' after' =>
    fault failure after failure' after' ∨ lost after failure' after'
  | .error _ _, .ok _ _ => False

/-- Two actions have both succeeded with `post`, or both failed with `fault`. -/
abbrev Alike (post : α → σ → α' → σ' → Prop) (fault : ε → σ → ε' → σ' → Prop)
    (result : EStateM.Result ε σ α) (result' : EStateM.Result ε' σ' α') : Prop :=
  Lockstep post fault (fun _ _ _ => False) result result'

namespace Lockstep

variable {post post₂ : α → σ → α' → σ' → Prop} {fault fault₂ : ε → σ → ε' → σ' → Prop}
  {lost : σ → ε' → σ' → Prop} {state : σ} {state' : σ'}

theorem mono {result : EStateM.Result ε σ α} {result' : EStateM.Result ε' σ' α'}
    (h : Lockstep post fault lost result result')
    (hpost : ∀ value after value' after', post value after value' after' →
      post₂ value after value' after')
    (hfault : ∀ failure after failure' after', fault failure after failure' after' →
      fault₂ failure after failure' after') :
    Lockstep post₂ fault₂ lost result result' := by
  cases result <;> cases result'
  · exact hpost _ _ _ _ h
  · exact h
  · exact h
  · exact h.imp (hfault _ _ _ _) id

theorem mono_post {result : EStateM.Result ε σ α} {result' : EStateM.Result ε' σ' α'}
    (h : Lockstep post fault lost result result')
    (hpost : ∀ value after value' after', post value after value' after' →
      post₂ value after value' after') :
    Lockstep post₂ fault lost result result' :=
  h.mono hpost fun _ _ _ _ h => h

/-- A condition that is the same for both. -/
theorem ite {condition condition' : Prop} [Decidable condition] [Decidable condition']
    {yes no : EStateM ε σ α} {yes' no' : EStateM ε' σ' α'} (hsame : condition ↔ condition')
    (hyes : condition → Lockstep post fault lost (yes state) (yes' state'))
    (hno : ¬ condition → Lockstep post fault lost (no state) (no' state')) :
    Lockstep post fault lost ((if condition then yes else no) state)
      ((if condition' then yes' else no') state') := by
  by_cases h : condition
  · rw [if_pos h, if_pos (hsame.1 h)]
    exact hyes h
  · rw [if_neg h, if_neg (mt hsame.2 h)]
    exact hno h

/-- It is known besides how the first action has succeeded. -/
theorem known {result : EStateM.Result ε σ α} {result' : EStateM.Result ε' σ' α'}
    (h : Lockstep post fault lost result result') :
    Lockstep (fun value after value' after' =>
      post value after value' after' ∧ result = .ok value after) fault lost result result' := by
  cases result <;> cases result'
  · exact ⟨h, rfl⟩
  · exact h
  · exact h
  · exact h

/-- It is known besides how the second action has succeeded. -/
theorem known_right {result : EStateM.Result ε σ α} {result' : EStateM.Result ε' σ' α'}
    (h : Lockstep post fault lost result result') :
    Lockstep (fun value after value' after' =>
      post value after value' after' ∧ result' = .ok value' after') fault lost result result' := by
  cases result <;> cases result'
  · exact ⟨h, rfl⟩
  · exact h
  · exact h
  · exact h

/-- What the second action has lost stays lost while the first one goes on alone. -/
theorem of_lost {result : EStateM.Result ε σ α} {failure' : ε'} {after' : σ'}
    (h : Outcome (fun _ after => True ∧ lost after failure' after')
      (fun _ after => True ∧ lost after failure' after') result) :
    Lockstep post fault lost result (.error failure' after' : EStateM.Result ε' σ' α') := by
  cases result with
  | ok value after => exact h.2
  | error failure after => exact .inr h.2

/-- The second parts of two sequences start where the first ones have succeeded. What has been lost
stays lost while the first sequence goes on alone. -/
theorem bind {action : EStateM ε σ α} {action' : EStateM ε' σ' α'} {next : α → EStateM ε σ β}
    {next' : α' → EStateM ε' σ' β'} {goal : β → σ → β' → σ' → Prop}
    (h : Lockstep post fault lost (action state) (action' state'))
    (hnext : ∀ value after value' after', post value after value' after' →
      Lockstep goal fault lost (next value after) (next' value' after'))
    (hlost : ∀ value failure' after', Maintains (lost · failure' after') (next value)) :
    Lockstep goal fault lost ((action >>= next) state) ((action' >>= next') state') := by
  simp only [Bind.bind, EStateM.bind]
  cases hresult : action state <;> cases hresult' : action' state' <;> rw [hresult, hresult'] at h
  · exact hnext _ _ _ _ h
  · exact of_lost (hlost _ _ _ _ h)
  · exact h.elim
  · exact h

/-- Two loops that go on alike end alike. -/
theorem foldEach [HasRemaining σ] [HasRemaining σ'] {next : EStateM ε σ (Option α)}
    {next' : EStateM ε' σ' (Option α')} {handle : β → α → EStateM ε σ β}
    {handle' : β' → α' → EStateM ε' σ' β'} {htakes : Takes next} {htakes' : Takes next'}
    {hforward : ∀ result item, Forward (handle result item)}
    {hforward' : ∀ result item, Forward (handle' result item)} {goal : β → σ → β' → σ' → Prop}
    {result : β} {result' : β'} (invariant : β → σ → β' → σ' → Prop)
    (between : β → α → σ → β' → α' → σ' → Prop) (hstart : invariant result state result' state')
    (hnext : ∀ result state result' state', invariant result state result' state' →
      Lockstep (fun found after found' after' =>
          found = none ∧ found' = none ∧ goal result after result' after' ∨
          ∃ item item', found = some item ∧ found' = some item' ∧
            between result item after result' item' after') fault lost
        (next state) (next' state'))
    (hhandle : ∀ result item state result' item' state',
      between result item state result' item' state' →
      Lockstep invariant fault lost (handle result item state) (handle' result' item' state'))
    (hlost : ∀ failure' after', Maintains (lost · failure' after') next)
    (hlost' : ∀ result item failure' after', Maintains (lost · failure' after')
      (handle result item)) :
    Lockstep goal fault lost (ScriptedPng.foldEach next handle htakes hforward result state)
      (ScriptedPng.foldEach next' handle' htakes' hforward' result' state') := by
  have hloop (result : β) (failure' : ε') (after' : σ') : Maintains (lost · failure' after')
      (ScriptedPng.foldEach next handle htakes hforward result) :=
    .foldEach trivial ((hlost _ _).mono (fun _ _ _ _ => trivial) fun _ h => h)
      fun result item _ _ => hlost' result item _ _
  -- The measure of the first loop carries the induction.
  generalize hmeasure : remaining state = n
  induction n using Nat.strongRecOn generalizing result state result' state' with
  | ind n ih =>
    rw [foldEach_eq next, foldEach_eq next']
    refine .bind (hnext _ _ _ _ hstart).known ?_ ?_
    · rintro found after found' after' ⟨⟨rfl, rfl, hgoal⟩ | ⟨item, item', rfl, rfl, hbetween⟩, heq⟩
      · exact hgoal
      · have hless := htakes.remaining_lt _ _ _ heq
        refine .bind (hhandle _ _ _ _ _ _ hbetween).known ?_ fun value => hloop value
        rintro value middle value' middle' ⟨hround, hdone⟩
        have hmiddle := hforward _ _ _ _ _ hdone
        exact ih _ (by omega) hround rfl
    · intro found failure' after'
      cases found with
      | none => exact .pure trivial
      | some item => exact .bind (hlost' _ _ _ _) fun value _ => hloop value _ _

end Lockstep

namespace Alike

variable {post : α → σ → α' → σ' → Prop} {fault : ε → σ → ε' → σ' → Prop} {state : σ} {state' : σ'}

/-- Both actions are known to succeed. -/
theorem of_succeeds {succeeded : α → σ → Prop} {succeeded' : α' → σ' → Prop}
    {result : EStateM.Result ε σ α} {result' : EStateM.Result ε' σ' α'}
    (h : Succeeds succeeded result) (h' : Succeeds succeeded' result') :
    Alike (fun value after value' after' => succeeded value after ∧ succeeded' value' after') fault
      result result' := by
  cases result <;> cases result'
  · exact ⟨h, h'⟩
  · exact h'.elim
  · exact h.elim
  · exact h.elim

theorem bind {action : EStateM ε σ α} {action' : EStateM ε' σ' α'} {next : α → EStateM ε σ β}
    {next' : α' → EStateM ε' σ' β'} {goal : β → σ → β' → σ' → Prop}
    (h : Alike post fault (action state) (action' state'))
    (hnext : ∀ value after value' after', post value after value' after' →
      Alike goal fault (next value after) (next' value' after')) :
    Alike goal fault ((action >>= next) state) ((action' >>= next') state') :=
  Lockstep.bind h hnext fun _ _ _ _ h => h.elim

end Alike

/-- From states that are related before, two actions end alike: with related values in states that
are related afterwards, or else both with a failure. -/
def Agree (before after : σ → σ' → Prop) (fault : ε → σ → ε' → σ' → Prop) (related : α → α' → Prop)
    (action : EStateM ε σ α) (action' : EStateM ε' σ' α') : Prop :=
  ∀ state state', before state state' →
    Alike (fun value last value' last' => related value value' ∧ after last last') fault
      (action state) (action' state')

namespace Agree

variable {before middle after : σ → σ' → Prop} {fault : ε → σ → ε' → σ' → Prop}
  {related : α → α' → Prop} {goal : β → β' → Prop}

theorem pure {value : α} {value' : α'} (h : related value value') :
    Agree before before fault related (Pure.pure value) (Pure.pure value') :=
  fun _ _ hbefore => ⟨h, hbefore⟩

theorem throw {failure : ε} {failure' : ε'}
    (h : ∀ state state', before state state' → fault failure state failure' state') :
    Agree before after fault related (MonadExcept.throw failure) (MonadExcept.throw failure') :=
  fun state state' hbefore => .inl (h state state' hbefore)

theorem bind {action : EStateM ε σ α} {action' : EStateM ε' σ' α'} {next : α → EStateM ε σ β}
    {next' : α' → EStateM ε' σ' β'} (h : Agree before middle fault related action action')
    (hnext : ∀ value value', related value value' →
      Agree middle after fault goal (next value) (next' value')) :
    Agree before after fault goal (action >>= next) (action' >>= next') :=
  fun state state' hbefore => (h state state' hbefore).bind fun value last value' last' hlast =>
    hnext value value' hlast.1 last last' hlast.2

/-- The values of the first actions are the same, so the second ones go on with the same one. -/
theorem bind_eq {action : EStateM ε σ α} {action' : EStateM ε' σ' α} {next : α → EStateM ε σ β}
    {next' : α → EStateM ε' σ' β'} (h : Agree before middle fault Eq action action')
    (hnext : ∀ value, Agree middle after fault goal (next value) (next' value)) :
    Agree before after fault goal (action >>= next) (action' >>= next') :=
  .bind h fun value _ heq => heq ▸ hnext value

theorem map {action : EStateM ε σ α} {action' : EStateM ε' σ' α'} {f : α → β} {f' : α' → β'}
    (h : Agree before after fault (fun value value' => goal (f value) (f' value')) action action') :
    Agree before after fault goal (f <$> action) (f' <$> action') := by
  intro state state' hbefore
  have hresult := h state state' hbefore
  simp only [Functor.map, EStateM.map]
  cases haction : action state <;> cases haction' : action' state' <;>
    rw [haction, haction'] at hresult <;> exact hresult

/-- A condition that is the same for both. -/
theorem ite {condition condition' : Prop} [Decidable condition] [Decidable condition']
    {yes no : EStateM ε σ α} {yes' no' : EStateM ε' σ' α'} (hsame : condition ↔ condition')
    (hyes : condition → Agree before after fault related yes yes')
    (hno : ¬ condition → Agree before after fault related no no') :
    Agree before after fault related (if condition then yes else no)
      (if condition' then yes' else no') :=
  fun state state' hbefore => .ite hsame (fun h => hyes h state state' hbefore)
    fun h => hno h state state' hbefore

end Agree

/-- From states that are in step, the second action goes along with the first one: both succeed with
related values or fail for the same reason, and the states stay in step, or else the second action
has lost the first one. What is lost stays lost while the first action runs alone. -/
structure Tracks (inStep : σ → σ' → Prop) (lost : σ → ε → σ' → Prop) (related : α → α' → Prop)
    (action : EStateM ε σ α) (action' : EStateM ε σ' α') : Prop where
  lockstep : ∀ state state', inStep state state' →
    Lockstep (fun value after value' after' => related value value' ∧ inStep after after')
      (fun failure after failure' after' => failure' = failure ∧ inStep after after') lost
      (action state) (action' state')
  stays : ∀ failure' after', Maintains (lost · failure' after') action

namespace Tracks

variable {inStep : σ → σ' → Prop} {lost : σ → ε → σ' → Prop} {related : α → α' → Prop}
  {goal : β → β' → Prop} {action : EStateM ε σ α} {action' : EStateM ε σ' α'}

theorem pure {value : α} {value' : α'} (h : related value value') :
    Tracks inStep lost related (Pure.pure value) (Pure.pure value') where
  lockstep _ _ hstep := ⟨h, hstep⟩
  stays _ _ := .pure trivial

theorem throw (failure : ε) :
    Tracks inStep lost related (MonadExcept.throw failure) (MonadExcept.throw failure) where
  lockstep _ _ hstep := .inl ⟨rfl, hstep⟩
  stays _ _ := .throw trivial

theorem bind {next : α → EStateM ε σ β} {next' : α' → EStateM ε σ' β'}
    (h : Tracks inStep lost related action action')
    (hnext : ∀ value value', related value value' →
      Tracks inStep lost goal (next value) (next' value'))
    (hstays : ∀ value failure' after', Maintains (lost · failure' after') (next value)) :
    Tracks inStep lost goal (action >>= next) (action' >>= next') where
  lockstep state state' hstep := .bind (h.lockstep state state' hstep)
    (fun value after value' after' hafter =>
      (hnext value value' hafter.1).lockstep after after' hafter.2) hstays
  stays _ _ := .bind (h.stays _ _) fun value _ => hstays value _ _

/-- The values of the first actions are the same, so the second ones go on with the same one. -/
theorem bind_eq {action' : EStateM ε σ' α} {next : α → EStateM ε σ β}
    {next' : α → EStateM ε σ' β'} (h : Tracks inStep lost Eq action action')
    (hnext : ∀ value, Tracks inStep lost goal (next value) (next' value)) :
    Tracks inStep lost goal (action >>= next) (action' >>= next') :=
  .bind h (fun value _ heq => heq ▸ hnext value) fun value => (hnext value).stays

theorem ite {condition condition' : Prop} [Decidable condition] [Decidable condition']
    {yes no : EStateM ε σ α} {yes' no' : EStateM ε σ' α'} (hsame : condition ↔ condition')
    (hyes : Tracks inStep lost related yes yes') (hno : Tracks inStep lost related no no') :
    Tracks inStep lost related (if condition then yes else no)
      (if condition' then yes' else no') where
  lockstep _ _ hstep := .ite hsame (fun _ => hyes.lockstep _ _ hstep)
    fun _ => hno.lockstep _ _ hstep
  stays _ _ := .ite (fun _ => hyes.stays _ _) fun _ => hno.stays _ _

/-- A step that is taken on a condition, and the rest in either case. -/
theorem optional {condition : Prop} [Decidable condition] {yes rest : EStateM ε σ α}
    {yes' rest' : EStateM ε σ' α'}
    (hstep : Tracks inStep lost related rest rest' → Tracks inStep lost related yes yes')
    (hrest : Tracks inStep lost related rest rest') :
    Tracks inStep lost related (if condition then yes else rest)
      (if condition then yes' else rest') :=
  .ite Iff.rfl (hstep hrest) hrest

theorem forM {action : α → EStateM ε σ PUnit} {action' : α → EStateM ε σ' PUnit}
    (h : ∀ value, Tracks inStep lost Eq (action value) (action' value)) (values : List α) :
    Tracks inStep lost Eq (values.forM action) (values.forM action') := by
  induction values with
  | nil => exact .pure rfl
  | cons value values ih => exact .bind_eq (h value) fun _ => ih

theorem foldEach [HasRemaining σ] [HasRemaining σ'] {next : EStateM ε σ (Option α)}
    {next' : EStateM ε σ' (Option α)} {handle : β → α → EStateM ε σ β}
    {handle' : β → α → EStateM ε σ' β} {htakes : Takes next} {htakes' : Takes next'}
    {hforward : ∀ result item, Forward (handle result item)}
    {hforward' : ∀ result item, Forward (handle' result item)}
    (hnext : Tracks inStep lost Eq next next')
    (hhandle : ∀ result item, Tracks inStep lost Eq (handle result item) (handle' result item))
    (result : β) :
    Tracks inStep lost Eq (ScriptedPng.foldEach next handle htakes hforward result)
      (ScriptedPng.foldEach next' handle' htakes' hforward' result) where
  lockstep := by
    intro state state' hstep
    refine Lockstep.foldEach
      (fun result state result' state' => result = result' ∧ inStep state state')
      (fun result item state result' item' state' =>
        (result = result' ∧ item = item') ∧ inStep state state') ⟨rfl, hstep⟩ ?_ ?_
      hnext.stays fun result item => (hhandle result item).stays
    · rintro result state _ state' ⟨rfl, hstep⟩
      refine (hnext.lockstep state state' hstep).mono_post ?_
      rintro found after _ after' ⟨rfl, hafter⟩
      cases found with
      | none => exact .inl ⟨rfl, rfl, rfl, hafter⟩
      | some item => exact .inr ⟨item, item, rfl, rfl, ⟨rfl, rfl⟩, hafter⟩
    · rintro result item state _ _ state' ⟨⟨rfl, rfl⟩, hstep⟩
      exact (hhandle result item).lockstep state state' hstep
  stays failure' after' := .foldEach trivial
    ((hnext.stays _ _).mono (fun _ _ _ _ => trivial) fun _ h => h)
    fun result item _ _ => (hhandle result item).stays _ _

end Tracks

end ScriptedPng
