/-!
# Reading forward

Actions on a state in which something is left to read. An action that reads forward never leaves
more to read than there was, unless it fails. A loop that takes an item in each round, and whose
rounds read forward, comes to an end.

## Main definitions

* `Forward` — the action reads forward.
* `Takes` — the action takes something whenever it gives an item.
* `foldEach`, `forEach` — the loops over the items that are left.
-/

namespace ScriptedPng

/-- States in which something is left to read. -/
class HasRemaining (σ : Type) where
  /-- How much is left. -/
  remaining : σ → Nat

export HasRemaining (remaining)

variable {ε σ α β : Type} [HasRemaining σ]

/-- The action leaves no more to read than there was, unless it fails. -/
def Forward (action : EStateM ε σ α) : Prop :=
  ∀ state value after, action state = .ok value after → remaining after ≤ remaining state

/-- The action reads forward, and takes something whenever it gives an item. -/
structure Takes (action : EStateM ε σ (Option α)) : Prop where
  forward : Forward action
  remaining_lt : ∀ state item after,
    action state = .ok (some item) after → remaining after < remaining state

namespace Forward

theorem pure (value : α) : Forward (Pure.pure value : EStateM ε σ α) := by
  rintro state _ _ ⟨⟩
  exact Nat.le_refl _

theorem error (failure : ε) :
    Forward (fun state => .error failure state : EStateM ε σ α) := by
  rintro _ _ _ ⟨⟩

theorem throw (failure : ε) : Forward (MonadExcept.throw failure : EStateM ε σ α) :=
  error failure

theorem bind {action : EStateM ε σ α} {next : α → EStateM ε σ β} (h : Forward action)
    (hnext : ∀ value, Forward (next value)) : Forward (action >>= next) := by
  intro state value after heq
  simp only [Bind.bind, EStateM.bind] at heq
  split at heq
  · rename_i first middle hfirst
    exact Nat.le_trans (hnext first middle value after heq) (h state first middle hfirst)
  · cases heq

theorem ite {condition : Prop} [Decidable condition] {yes no : EStateM ε σ α} (h : Forward yes)
    (hno : Forward no) : Forward (if condition then yes else no) := by
  split <;> assumption

end Forward

/-- Takes item after item, up to the end, and handles each one with the result of the one before. -/
def foldEach (next : EStateM ε σ (Option α)) (handle : β → α → EStateM ε σ β) (htakes : Takes next)
    (hforward : ∀ result item, Forward (handle result item)) (result : β) :
    EStateM ε σ β := fun state =>
  match _hnext : next state with
  | .error failure after => .error failure after
  | .ok none after => .ok result after
  | .ok (some item) after =>
    match _hhandle : handle result item after with
    | .error failure after => .error failure after
    | .ok result after => foldEach next handle htakes hforward result after
termination_by state => remaining state
decreasing_by
  exact Nat.lt_of_le_of_lt (hforward _ _ _ _ _ _hhandle) (htakes.remaining_lt _ _ _ _hnext)

/-- The first round of the loop, and the rest. -/
theorem foldEach_eq (next : EStateM ε σ (Option α)) (handle : β → α → EStateM ε σ β)
    (htakes : Takes next) (hforward : ∀ result item, Forward (handle result item)) (result : β) :
    foldEach next handle htakes hforward result =
      (do
        match ← next with
        | none => return result
        | some item => foldEach next handle htakes hforward (← handle result item)) := by
  funext state
  rw [foldEach]
  cases hnext : next state with
  | error => simp [bind, EStateM.bind, hnext]
  | ok found after =>
    cases found with
    | none => simp [bind, EStateM.bind, pure, EStateM.pure, hnext]
    | some item =>
      simp only [bind, EStateM.bind, hnext]
      split <;> rename_i hhandle <;> rw [hhandle]

theorem forward_foldEach (next : EStateM ε σ (Option α)) (handle : β → α → EStateM ε σ β)
    (htakes : Takes next) (hforward : ∀ result item, Forward (handle result item)) (result : β) :
    Forward (foldEach next handle htakes hforward result) := by
  intro state value after heq
  fun_induction foldEach next handle htakes hforward result state with
  | case1 => cases heq
  | case2 result state middle h =>
    cases heq
    exact htakes.forward _ _ _ h
  | case3 => cases heq
  | case4 result state item middle h next last hhandle ih =>
    exact Nat.le_trans (ih heq) (Nat.le_trans (hforward _ _ _ _ _ hhandle)
      (htakes.forward _ _ _ h))

/-- Takes item after item, up to the end, and handles each one. -/
def forEach (next : EStateM ε σ (Option α)) (handle : α → EStateM ε σ Unit) (htakes : Takes next)
    (hforward : ∀ item, Forward (handle item)) : EStateM ε σ Unit :=
  foldEach next (fun _ => handle) htakes (fun _ => hforward) ()

theorem forward_forEach (next : EStateM ε σ (Option α)) (handle : α → EStateM ε σ Unit)
    (htakes : Takes next) (hforward : ∀ item, Forward (handle item)) :
    Forward (forEach next handle htakes hforward) :=
  forward_foldEach _ _ _ _ _

end ScriptedPng
