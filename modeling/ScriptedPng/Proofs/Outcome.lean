import ScriptedPng.Forward

/-!
# Outcomes of actions

An action either succeeds with a value or fails, and leaves a state behind in both cases. What is
known of the outcome is put together from what is known of the parts of the action; for a loop, from
an invariant that each round keeps.

## Main definitions

* `Outcome`, `ended` — what an action has come to.
* `Succeeds` — an action has succeeded.
* `Leads` — an action leads from one condition on the state to another one.
* `Ensures`, `Maintains` — whatever becomes of an action, an invariant of the state goes on to hold.

## Main statements

* `Outcome.bind`, `Outcome.mapM`, `Outcome.foldEach` — the rules for sequences and loops.
* `Ensures.bind`, `Ensures.foldEach` — what parts ensure goes over to sequences and loops.
-/

namespace ScriptedPng

variable {ε σ τ α β : Type}

/-- An action has succeeded with `post`, or failed with `fault`. -/
def Outcome (post : α → σ → Prop) (fault : ε → σ → Prop) : EStateM.Result ε σ α → Prop
  | .ok value after => post value after
  | .error failure after => fault failure after

/-- An action has succeeded with `post`. -/
abbrev Succeeds (post : α → σ → Prop) (result : EStateM.Result ε σ α) : Prop :=
  Outcome post (fun _ _ => False) result

/-- What an action has come to: its result, and the state it leaves behind. -/
def ended : EStateM.Result ε σ α → Except ε α × σ
  | .ok value after => (.ok value, after)
  | .error failure after => (.error failure, after)

/-- The second part of a sequence goes on where the first one has come to. -/
theorem bind_of_ok {action : EStateM ε σ α} {next : α → EStateM ε σ β} {state after : σ} {value : α}
    (h : action state = .ok value after) : (action >>= next) state = next value after := by
  simp only [bind, EStateM.bind, h]

theorem bind_of_error {action : EStateM ε σ α} {next : α → EStateM ε σ β} {state after : σ}
    {failure : ε} (h : action state = .error failure after) :
    (action >>= next) state = .error failure after := by
  simp only [bind, EStateM.bind, h]

theorem mapM_cons_of_ok {action : α → EStateM ε σ β} {item : α} {items : List α} {value : β}
    {values : List β} {state middle after : σ} (h : action item state = .ok value middle)
    (hrest : items.mapM action middle = .ok values after) :
    (item :: items).mapM action state = .ok (value :: values) after := by
  rw [List.mapM_cons, bind_of_ok h, bind_of_ok hrest]
  rfl

namespace Outcome

variable {post post' : α → σ → Prop} {fault fault' : ε → σ → Prop}

theorem mono {result : EStateM.Result ε σ α} (h : Outcome post fault result)
    (hpost : ∀ value after, post value after → post' value after)
    (hfault : ∀ failure after, fault failure after → fault' failure after) :
    Outcome post' fault' result := by
  cases result with
  | ok value after => exact hpost value after h
  | error failure after => exact hfault failure after h

theorem mono_post {result : EStateM.Result ε σ α} (h : Outcome post fault result)
    (hpost : ∀ value after, post value after → post' value after) : Outcome post' fault result :=
  h.mono hpost fun _ _ hfault => hfault

theorem mono_fault {result : EStateM.Result ε σ α} (h : Outcome post fault result)
    (hfault : ∀ failure after, fault failure after → fault' failure after) :
    Outcome post fault' result :=
  h.mono (fun _ _ hpost => hpost) hfault

/-- What leaves the state as it is if it fails keeps what is known of the state. -/
theorem unchanged {result : EStateM.Result ε σ α} {state : σ}
    (h : Outcome post (fun _ after => after = state) result)
    (hfault : ∀ failure, fault failure state) : Outcome post fault result := by
  refine h.mono_fault ?_
  rintro failure _ rfl
  exact hfault failure

theorem and {result : EStateM.Result ε σ α} (h : Outcome post fault result)
    (h' : Outcome post' fault' result) :
    Outcome (fun value after => post value after ∧ post' value after)
      (fun failure after => fault failure after ∧ fault' failure after) result := by
  cases result with
  | ok value after => exact ⟨h, h'⟩
  | error failure after => exact ⟨h, h'⟩

theorem ended {invariant : σ → Prop} {result : EStateM.Result ε σ α}
    (h : Outcome (fun _ => invariant) (fun _ => invariant) result) :
    invariant (ended result).2 := by
  cases result <;> exact h

theorem pure {value : α} {state : σ} (h : post value state) :
    Outcome post fault ((Pure.pure value : EStateM ε σ α) state) := h

theorem throw {failure : ε} {state : σ} (h : fault failure state) :
    Outcome post fault ((MonadExcept.throw failure : EStateM ε σ α) state) := h

theorem ite {condition : Prop} [Decidable condition] {yes no : EStateM ε σ α} {state : σ}
    (hyes : condition → Outcome post fault (yes state))
    (hno : ¬ condition → Outcome post fault (no state)) :
    Outcome post fault ((if condition then yes else no) state) := by
  split
  · exact hyes ‹_›
  · exact hno ‹_›

/-- The second part of a sequence starts where the first one has succeeded. -/
theorem bind {action : EStateM ε σ α} {next : α → EStateM ε σ β} {state : σ}
    {goal : β → σ → Prop} (h : Outcome post fault (action state))
    (hnext : ∀ value after, post value after → Outcome goal fault (next value after)) :
    Outcome goal fault ((action >>= next) state) := by
  simp only [Bind.bind, EStateM.bind]
  cases haction : action state with
  | ok value after =>
    rw [haction] at h
    exact hnext value after h
  | error failure after =>
    rw [haction] at h
    exact h

theorem map {action : EStateM ε σ α} {f : α → β} {state : σ} {goal : β → σ → Prop}
    (h : Outcome (fun value after => goal (f value) after) fault (action state)) :
    Outcome goal fault ((f <$> action) state) := by
  simp only [Functor.map, EStateM.map]
  cases haction : action state with
  | ok value after => rwa [haction] at h
  | error failure after => rwa [haction] at h

/-- One action after the other is carried out; the invariant speaks of those that are left. -/
theorem mapM {action : α → EStateM ε σ β} {items : List α} {state : σ}
    (invariant : List α → σ → Prop) (hstart : invariant items state)
    (hstep : ∀ item rest state, invariant (item :: rest) state →
      Outcome (fun _ after => invariant rest after) fault (action item state)) :
    Outcome (fun _ after => invariant [] after) fault (items.mapM action state) := by
  induction items generalizing state with
  | nil => exact hstart
  | cons item rest ih =>
    rw [List.mapM_cons]
    refine .bind (hstep item rest state hstart) fun value middle hmiddle => ?_
    exact .bind (ih hmiddle) fun values after hafter => hafter

/-- A loop ends as its last round does, provided that each round keeps the invariant. -/
theorem foldEach [HasRemaining σ] {next : EStateM ε σ (Option α)} {handle : β → α → EStateM ε σ β}
    {htakes : Takes next} {hforward : ∀ result item, Forward (handle result item)}
    {post : β → σ → Prop} {result : β} {state : σ} (invariant : β → σ → Prop)
    (between : β → α → σ → Prop) (hstart : invariant result state)
    (hnext : ∀ result state, invariant result state →
      Outcome (fun found after => found.elim (post result after) (between result · after)) fault
        (next state))
    (hhandle : ∀ result item state, between result item state →
      Outcome invariant fault (handle result item state)) :
    Outcome post fault (ScriptedPng.foldEach next handle htakes hforward result state) := by
  fun_induction ScriptedPng.foldEach next handle htakes hforward result state with
  | case1 result state failure after heq =>
    have := hnext _ _ hstart
    rwa [heq] at this
  | case2 result state after heq =>
    have := hnext _ _ hstart
    rwa [heq] at this
  | case3 result state item middle heq failure after hfailed =>
    have hfound := hnext _ _ hstart
    rw [heq] at hfound
    have := hhandle _ _ _ hfound
    rwa [hfailed] at this
  | case4 result state item middle heq result' after hdone ih =>
    have hfound := hnext _ _ hstart
    rw [heq] at hfound
    have := hhandle _ _ _ hfound
    rw [hdone] at this
    exact ih this

/-- A loop whose first item is there, and is handled, goes on from there. -/
theorem foldEach_some [HasRemaining σ] {next : EStateM ε σ (Option α)}
    {handle : β → α → EStateM ε σ β} {htakes : Takes next}
    {hforward : ∀ result item, Forward (handle result item)} {post : β → σ → Prop} {result : β}
    {state : σ} {between : α → σ → Prop} (handled : β → σ → Prop)
    (hnext : Outcome (fun found after => ∃ item, found = some item ∧ between item after) fault
      (next state))
    (hhandle : ∀ item state, between item state →
      Outcome handled fault (handle result item state))
    (hrest : ∀ result state, handled result state →
      Outcome post fault (ScriptedPng.foldEach next handle htakes hforward result state)) :
    Outcome post fault (ScriptedPng.foldEach next handle htakes hforward result state) := by
  rw [foldEach_eq]
  refine .bind hnext ?_
  rintro _ after ⟨item, rfl, hafter⟩
  exact .bind (hhandle item after hafter) hrest

/-- A loop without an item leaves its result as it is. -/
theorem foldEach_none [HasRemaining σ] {next : EStateM ε σ (Option α)}
    {handle : β → α → EStateM ε σ β} {htakes : Takes next}
    {hforward : ∀ result item, Forward (handle result item)} {post : β → σ → Prop} {result : β}
    {state : σ} (hnext : Outcome (fun found after => found = none ∧ post result after) fault
      (next state)) :
    Outcome post fault (ScriptedPng.foldEach next handle htakes hforward result state) := by
  rw [foldEach_eq]
  refine .bind hnext ?_
  rintro _ after ⟨rfl, hafter⟩
  exact hafter

end Outcome

/-- From states with `before`, the action succeeds with `post` or fails with `fault`. -/
def Leads (before : σ → Prop) (post : α → σ → Prop) (fault : ε → σ → Prop)
    (action : EStateM ε σ α) : Prop :=
  ∀ state, before state → Outcome post fault (action state)

namespace Leads

variable {before before' : σ → Prop} {post : α → σ → Prop} {goal : β → σ → Prop}
  {fault : ε → σ → Prop}

theorem pure {value : α} (h : ∀ state, before state → post value state) :
    Leads before post fault (Pure.pure value) := h

theorem throw {failure : ε} (h : ∀ state, before state → fault failure state) :
    Leads before post fault (MonadExcept.throw failure : EStateM ε σ α) := h

theorem bind {action : EStateM ε σ α} {next : α → EStateM ε σ β}
    (h : Leads before post fault action)
    (hnext : ∀ value, Leads (post value) goal fault (next value)) :
    Leads before goal fault (action >>= next) :=
  fun state hstate => .bind (h state hstate) hnext

theorem map {action : EStateM ε σ α} {f : α → β}
    (h : Leads before (fun value => goal (f value)) fault action) :
    Leads before goal fault (f <$> action) :=
  fun state hstate => .map (h state hstate)

theorem ite {condition : Prop} [Decidable condition] {yes no : EStateM ε σ α}
    (hyes : condition → Leads before post fault yes)
    (hno : ¬ condition → Leads before post fault no) :
    Leads before post fault (if condition then yes else no) := by
  split
  · exact hyes ‹_›
  · exact hno ‹_›

theorem weaken {action : EStateM ε σ α} (h : Leads before post fault action)
    (hbefore : ∀ state, before' state → before state) : Leads before' post fault action :=
  fun state hstate => h state (hbefore state hstate)

end Leads

/-- Whatever becomes of the action, the invariant holds afterwards if it has held before. Something
is known of the value that the action succeeds with, or else of its failure. -/
def Ensures (invariant : σ → Prop) (post : α → Prop) (fault : ε → Prop) (action : EStateM ε σ α) :
    Prop :=
  ∀ state, invariant state →
    Outcome (fun value after => post value ∧ invariant after)
      (fun failure after => fault failure ∧ invariant after) (action state)

/-- Whatever becomes of the action, the invariant holds afterwards if it has held before. -/
abbrev Maintains (invariant : σ → Prop) (action : EStateM ε σ α) : Prop :=
  Ensures invariant (fun _ => True) (fun _ => True) action

namespace Ensures

variable {invariant : σ → Prop} {post post' : α → Prop} {goal : β → Prop} {fault fault' : ε → Prop}
  {action : EStateM ε σ α}

theorem mono (h : Ensures invariant post fault action) (hpost : ∀ value, post value → post' value)
    (hfault : ∀ failure, fault failure → fault' failure) :
    Ensures invariant post' fault' action :=
  fun state hstate => (h state hstate).mono (fun _ _ h => ⟨hpost _ h.1, h.2⟩)
    fun _ _ h => ⟨hfault _ h.1, h.2⟩

theorem pure {value : α} (h : post value) :
    Ensures invariant post fault (Pure.pure value : EStateM ε σ α) :=
  fun _ hstate => ⟨h, hstate⟩

theorem throw {failure : ε} (h : fault failure) :
    Ensures invariant post fault (MonadExcept.throw failure : EStateM ε σ α) :=
  fun _ hstate => ⟨h, hstate⟩

theorem bind {next : α → EStateM ε σ β} (h : Ensures invariant post fault action)
    (hnext : ∀ value, post value → Ensures invariant goal fault (next value)) :
    Ensures invariant goal fault (action >>= next) :=
  fun state hstate => .bind (h state hstate) fun value after hafter =>
    hnext value hafter.1 after hafter.2

theorem map {f : α → β} (h : Ensures invariant (fun value => goal (f value)) fault action) :
    Ensures invariant goal fault (f <$> action) :=
  fun state hstate => .map (h state hstate)

theorem ite {condition : Prop} [Decidable condition] {yes no : EStateM ε σ α}
    (hyes : condition → Ensures invariant post fault yes)
    (hno : ¬ condition → Ensures invariant post fault no) :
    Ensures invariant post fault (if condition then yes else no) := by
  split
  · exact hyes ‹_›
  · exact hno ‹_›

/-- A step that is taken on a condition, and the rest in either case. -/
theorem optional {condition : Prop} [Decidable condition] {yes rest : EStateM ε σ α}
    (hstep : Ensures invariant post fault rest → Ensures invariant post fault yes)
    (hrest : Ensures invariant post fault rest) :
    Ensures invariant post fault (if condition then yes else rest) :=
  .ite (fun _ => hstep hrest) fun _ => hrest

theorem get : Ensures invariant (fun _ => True) fault (MonadState.get : EStateM ε σ σ) :=
  fun _ hstate => ⟨trivial, hstate⟩

theorem forM {action : β → EStateM ε σ PUnit}
    (h : ∀ value, Ensures invariant (fun _ => True) fault (action value)) (values : List β) :
    Ensures invariant (fun _ => True) fault (values.forM action) := by
  induction values with
  | nil => exact .pure trivial
  | cons value values ih => exact .bind (h value) fun _ _ => ih

theorem foldlM {action : β → α → EStateM ε σ β} {start : β}
    (h : ∀ value item, goal value → Ensures invariant goal fault (action value item))
    (hstart : goal start) (items : List α) :
    Ensures invariant goal fault (items.foldlM action start) := by
  induction items generalizing start with
  | nil => exact .pure hstart
  | cons item items ih => exact .bind (h start item hstart) fun _ hvalue => ih hvalue

theorem tryCatch {handle : ε → EStateM ε σ α} (h : Ensures invariant post (fun _ => True) action)
    (hhandle : ∀ failure, Ensures invariant post fault (handle failure)) :
    Ensures invariant post fault (MonadExcept.tryCatch action handle) := by
  intro state hstate
  have houtcome := h state hstate
  change Outcome _ _ (EStateM.tryCatch action handle state)
  delta EStateM.tryCatch
  dsimp only
  cases haction : action state with
  | ok value after =>
    rw [haction] at houtcome
    exact houtcome
  | error failure after =>
    rw [haction] at houtcome
    exact hhandle failure after houtcome.2

/-- A loop ensures of its result what each round hands on to the next. -/
theorem foldEach [HasRemaining σ] {next : EStateM ε σ (Option α)} {handle : β → α → EStateM ε σ β}
    {htakes : Takes next} {hforward : ∀ result item, Forward (handle result item)} {result : β}
    (hresult : goal result)
    (hnext : Ensures invariant (fun found => ∀ item ∈ found, post item) fault next)
    (hhandle : ∀ result item, goal result → post item →
      Ensures invariant goal fault (handle result item)) :
    Ensures invariant goal fault (ScriptedPng.foldEach next handle htakes hforward result) := by
  intro state hstate
  refine Outcome.foldEach (fun result state => goal result ∧ invariant state)
    (fun result item state => goal result ∧ post item ∧ invariant state) ⟨hresult, hstate⟩ ?_
    fun result item state hround => hhandle result item hround.1 hround.2.1 state hround.2.2
  intro result state hround
  refine (hnext state hround.2).mono_post ?_
  intro found after hafter
  cases found with
  | none => exact ⟨hround.1, hafter.2⟩
  | some item => exact ⟨hround.1, hafter.1 item rfl, hafter.2⟩

end Ensures

end ScriptedPng
