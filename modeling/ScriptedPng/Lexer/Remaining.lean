import ScriptedPng.Forward
import ScriptedPng.Segment.Reading

/-!
# The lexer reads forward

How much is left to read never grows while tokens and data segments are read, and each token takes
some of it. Loops that read a token in each round end for that reason.

## Main statements

* `Lexer.takes_next`, `Lexer.takes_inner` — each token takes something.
* `Lexer.forward_require`, `Lexer.forward_collect` — tokens required and data segments give nothing
  back.
-/

namespace ScriptedPng.Lexer

/-- How much is left: the readings to come, and the token pushed back. -/
def remaining (lexer : Lexer) : Nat :=
  lexer.source.ahead.length + lexer.pushed.toNat

instance : HasRemaining Lexer where
  remaining := remaining

theorem length_skipGap (inComment : Bool) (line : Nat) (readings : List Reading) :
    (skipGap inComment line readings).2.length ≤ readings.length := by
  fun_induction skipGap inComment line readings <;> grind

theorem length_span (test : Char → Bool) (readings : List Reading) :
    (span test readings).2.length ≤ readings.length := by
  fun_induction span test readings <;> grind

/-- The action succeeds only with at most `bound` left to read. -/
def LeavesAtMost {α : Type} (bound : Nat) (result : EStateM.Result Diagnostic Lexer α) : Prop :=
  ∀ value after, result = .ok value after → after.remaining ≤ bound

theorem LeavesAtMost.error {α : Type} {bound : Nat} {diagnostic : Diagnostic} {lexer : Lexer} :
    LeavesAtMost (α := α) bound (.error diagnostic lexer) := by
  intro value after h
  cases h

theorem LeavesAtMost.ok {α : Type} {bound : Nat} {value : α} {lexer : Lexer}
    (h : lexer.remaining ≤ bound) : LeavesAtMost bound (.ok value lexer) := by
  rintro _ _ ⟨⟩
  exact h

theorem leavesAtMost_finish {α : Type} {onEnd : LexerM α} {lexer : Lexer} {bound : Nat}
    (h : LeavesAtMost bound (onEnd lexer)) : LeavesAtMost bound (finish onEnd lexer) := by
  simp only [finish]
  split
  · exact h
  · exact .error

theorem leavesAtMost_deliver {text : String} {line : Nat} {quoted : Bool} {lexer : Lexer}
    {bound : Nat} (h : lexer.remaining ≤ bound) :
    LeavesAtMost bound (deliver text line quoted lexer) :=
  .ok h

/-- Only the readings that have been skipped to are left behind a token. -/
theorem leavesAtMost_deliver_skipTo {text : String} {line : Nat} {quoted : Bool} {lexer : Lexer}
    {rest : List Reading} {bound : Nat} (hpushed : lexer.pushed = false)
    (hrest : rest.length ≤ bound) :
    LeavesAtMost bound (deliver text line quoted (lexer.skipTo rest)) := by
  refine leavesAtMost_deliver ?_
  simpa [remaining, skipTo, Source.skipTo, hpushed] using hrest

theorem leavesAtMost_readWord {first : Char} {rest : List Reading} {lexer : Lexer}
    (h : lexer.pushed = false) : LeavesAtMost rest.length (readWord first rest lexer) := by
  have hspan := length_span Token.isWordChar rest
  simp only [readWord]
  split
  · exact .error
  · split <;> rename_i heq <;> rw [heq] at hspan
    · exact leavesAtMost_finish (leavesAtMost_deliver_skipTo h hspan)
    · exact leavesAtMost_deliver_skipTo h (Nat.le_of_succ_le hspan)
    · split
      · refine leavesAtMost_deliver ?_
        simpa [remaining, skipTo, Source.skipTo, h] using Nat.le_of_succ_le hspan
      · split
        · exact leavesAtMost_deliver_skipTo h (Nat.le_of_succ_le hspan)
        · refine leavesAtMost_deliver ?_
          simpa [remaining, h] using hspan

theorem leavesAtMost_readString {quote : Char} {rest : List Reading} {lexer : Lexer}
    (h : lexer.pushed = false) : LeavesAtMost rest.length (readString quote rest lexer) := by
  have hspan := length_span (fun c => c ≠ quote && c ≠ '\n') rest
  simp only [readString]
  split
  · exact .error
  · split
    · exact leavesAtMost_finish .error
    · exact .error
    · rename_i heq
      rw [heq] at hspan
      split
      · exact leavesAtMost_deliver_skipTo h (Nat.le_of_succ_le hspan)
      · exact .error

/-- A token takes at least one reading, or takes back the one pushed. -/
theorem remaining_of_next {lexer after : Lexer} {token : Token}
    (h : next lexer = .ok (some token) after) : after.remaining < lexer.remaining := by
  simp only [next] at h
  split at h
  · rename_i hpushed
    injection h with _ h
    subst h
    simp [remaining, hpushed]
  · rename_i hpushed
    have hpushed : lexer.pushed = false := by simpa using hpushed
    have hgap := length_skipGap false lexer.line lexer.source.ahead
    simp only [scan] at h
    split at h
    · simp only [finish] at h
      split at h <;> cases h
    · cases h
    · rename_i c rest heq
      rw [heq] at hgap
      simp only [List.length_cons] at hgap
      have hrest : rest.length < lexer.remaining := by
        simp only [remaining, hpushed, Bool.toNat_false]
        omega
      split at h
      · exact Nat.lt_of_le_of_lt (leavesAtMost_readString (by exact hpushed) _ _ h) hrest
      · split at h
        · have hleft := leavesAtMost_deliver_skipTo (by exact hpushed) (Nat.le_refl _) _ _ h
          exact Nat.lt_of_le_of_lt hleft hrest
        · exact Nat.lt_of_le_of_lt (leavesAtMost_readWord (by exact hpushed) _ _ h) hrest

/-- Finding the end takes nothing. -/
theorem remaining_of_next_none {lexer after : Lexer} (h : next lexer = .ok none after) :
    after.remaining ≤ lexer.remaining := by
  simp only [next] at h
  split at h
  · rename_i hpushed
    injection h with _ h
    subst h
    simp [remaining, hpushed]
  · rename_i hpushed
    have hpushed : lexer.pushed = false := by simpa using hpushed
    have hgap := length_skipGap false lexer.line lexer.source.ahead
    have hword := @leavesAtMost_readWord
    simp only [scan] at h
    split at h
    · refine leavesAtMost_finish (.ok ?_) _ _ h
      simp [remaining, skipTo, Source.skipTo, hpushed]
    · rename_i heq
      rw [heq] at hgap
      injection h with _ h
      subst h
      simp only [List.length_cons] at hgap
      simp only [remaining, skipTo, Source.skipTo, hpushed, Bool.toNat_false]
      omega
    · rename_i c rest heq
      rw [heq] at hgap
      simp only [List.length_cons] at hgap
      have hrest : rest.length < lexer.remaining := by
        simp only [remaining, hpushed, Bool.toNat_false]
        omega
      refine Nat.le_of_lt ?_
      split at h
      · exact Nat.lt_of_le_of_lt (leavesAtMost_readString (by exact hpushed) _ _ h) hrest
      · split at h
        · cases h
        · exact Nat.lt_of_le_of_lt (leavesAtMost_readWord (by exact hpushed) _ _ h) hrest

theorem leavesAtMost_collectInto {collector : Segment.Collector} {readings : List Reading}
    {lexer : Lexer} :
    LeavesAtMost (readings.length + lexer.pushed.toNat) (collectInto collector readings lexer) := by
  induction readings generalizing collector lexer with
  | nil => exact leavesAtMost_finish .error
  | cons reading rest ih =>
    cases reading with
    | none => exact .error
    | some c =>
      simp only [collectInto]
      split
      · split
        · refine .ok ?_
          split <;> simp [remaining, skipTo, Source.skipTo]
        · exact .error
      · split
        · intro value after h
          refine Nat.le_trans (ih value after h) ?_
          split <;> simp [skipTo]
        · exact .error

/-- A data segment gives no reading back. -/
theorem remaining_of_collect {alphabet : Segment.Alphabet} {lexer after : Lexer} {octets : Octets}
    (h : collect alphabet lexer = .ok octets after) : after.remaining ≤ lexer.remaining :=
  leavesAtMost_collectInto _ _ h

/-- The token of a block is one that the source gives next. -/
theorem next_of_inner {lexer after : Lexer} {token : Token}
    (h : inner lexer = .ok (some token) after) : next lexer = .ok (some token) after := by
  simp only [inner, bind, EStateM.bind] at h
  split at h
  · rename_i found lexer' heq
    cases found with
    | none => cases h
    | some found =>
      rw [heq]
      simp only [pure, EStateM.pure] at h
      split at h <;> simp_all
  · cases h

/-- A token required is one that the source gives next. -/
theorem next_of_require {text : String} {lexer after : Lexer} {token : Token}
    (h : require text lexer = .ok token after) : next lexer = .ok (some token) after := by
  simp only [require, bind, EStateM.bind] at h
  split at h
  · rename_i found lexer' heq
    cases found with
    | none => cases h
    | some found =>
      rw [heq]
      simp only [] at h
      split at h
      · cases h
        rfl
      · cases h
  · cases h

/-- Reading a token, or finding the end, gives nothing back. -/
theorem remaining_le_of_next {lexer after : Lexer} {found : Option Token}
    (h : next lexer = .ok found after) : after.remaining ≤ lexer.remaining := by
  cases found with
  | none => exact remaining_of_next_none h
  | some token => exact Nat.le_of_lt (remaining_of_next h)

/-- Reading a token of a block, or its end, gives nothing back. -/
theorem remaining_le_of_inner {lexer after : Lexer} {found : Option Token}
    (h : inner lexer = .ok found after) : after.remaining ≤ lexer.remaining := by
  simp only [inner, bind, EStateM.bind] at h
  split at h
  · rename_i heq
    refine Nat.le_trans ?_ (remaining_le_of_next heq)
    split at h
    · cases h
    · simp only [pure, EStateM.pure] at h
      injection h with _ h
      exact Nat.le_of_eq (congrArg remaining h.symm)
  · cases h

/-- Requiring a token gives nothing back. -/
theorem remaining_le_of_require {text : String} {lexer after : Lexer} {token : Token}
    (h : require text lexer = .ok token after) : after.remaining ≤ lexer.remaining :=
  Nat.le_of_lt (remaining_of_next (next_of_require h))

theorem takes_next : Takes next where
  forward _ _ _ := remaining_le_of_next
  remaining_lt _ _ _ := remaining_of_next

theorem takes_inner : Takes inner where
  forward _ _ _ := remaining_le_of_inner
  remaining_lt _ _ _ h := remaining_of_next (next_of_inner h)

theorem forward_require (text : String) : Forward (require text) :=
  fun _ _ _ => remaining_le_of_require

theorem forward_collect (alphabet : Segment.Alphabet) : Forward (collect alphabet) :=
  fun _ _ _ => remaining_of_collect

end ScriptedPng.Lexer
