import ScriptedPng.Diagnostic

/-!
# Messages on one line

A message takes over texts from outside: tokens, names, and the reasons that the system gives.
Whatever else a message says holds no newline, the quotes of libraries included.

## Main definitions

* `Text.OneLine` — a text without newlines.
* `Cause.texts` — the texts from outside that a message takes over.

## Main statements

* `Cause.oneLine_message` — a message is on one line if the texts from outside are.
-/

namespace ScriptedPng

namespace Text

/-- The text has no newline. -/
def OneLine (text : String) : Prop := '\n' ∉ text.toList

instance (text : String) : Decidable (OneLine text) :=
  inferInstanceAs (Decidable (¬ _))

@[simp] theorem oneLine_append (text more : String) :
    OneLine (text ++ more) ↔ OneLine text ∧ OneLine more := by
  simp [OneLine]

@[simp] theorem oneLine_toString (text : String) : OneLine (toString text) ↔ OneLine text :=
  Iff.rfl

@[simp] theorem oneLine_natRepr (n : Nat) : OneLine n.repr := by
  intro hmem
  have hdigit := Nat.isDigit_of_mem_toDigits (b := 10) (by decide) (by decide)
    (show '\n' ∈ Nat.toDigits 10 n by simpa [Nat.repr] using hmem)
  simp [Char.isDigit] at hdigit

@[simp] theorem oneLine_intRepr (n : Int) : OneLine n.repr := by
  cases n with
  | ofNat n => exact oneLine_natRepr n
  | negSucc n =>
    have hrepr : (Int.negSucc n).repr = "-" ++ (n + 1).repr := rfl
    rw [hrepr, oneLine_append]
    exact ⟨by decide, oneLine_natRepr _⟩

theorem oneLine_intercalate {text : String} {texts : List String} (h : OneLine text)
    (htexts : ∀ part ∈ texts, OneLine part) : OneLine (text.intercalate texts) := by
  rw [OneLine, String.toList_intercalate]
  induction texts with
  | nil => simp [List.intercalate]
  | cons first texts ih =>
    obtain ⟨hfirst, htexts⟩ := List.forall_mem_cons.1 htexts
    have hmore := ih htexts
    rw [OneLine] at h hfirst
    cases texts with
    | nil => simpa [List.intercalate] using hfirst
    | cons second texts => simpa [List.intercalate, h, hfirst] using hmore

/-- A set of flags is shown on one line if its name and theirs are. -/
theorem oneLine_showFlags {kind : String} {flags : List (String × Bool)} (hkind : OneLine kind)
    (h : ∀ flag ∈ flags, OneLine flag.1) : OneLine (showFlags kind flags) := by
  have hnames : OneLine ("|".intercalate ((flags.filter Prod.snd).map Prod.fst)) := by
    refine oneLine_intercalate (by decide) ?_
    simp only [List.mem_map, List.mem_filter]
    rintro _ ⟨flag, ⟨hmem, -⟩, rfl⟩
    exact h flag hmem
  have hnumber (n : Nat) : OneLine (toString n) := oneLine_natRepr n
  simp only [showFlags]
  split <;> simp only [oneLine_append, oneLine_toString, hkind, hnames, hnumber, and_true]
  all_goals decide

end Text

namespace Diagnostic

open Text

/-- The texts from outside that the message takes over. -/
def Cause.texts : Cause → List String
  | notOpened path reason => [path, reason]
  | readFailed reason | writeFailed reason => [reason]
  | unexpectedToken text | badConstant _ text | unknownBlock text | constantOutOfRange _ text =>
    [text]
  | badToken text block => [text, block]
  | repeatedBlock name | unsupportedBlock name | valueOutOfRange name _ => [name]
  | misplaced (.paletteAfter name) | misplaced (.late name) => [name]
  | _ => []

theorem oneLine_flags (flags : ColorFlags) : OneLine flags.text := by
  refine oneLine_showFlags (by decide) ?_
  simp only [ColorFlags.named, List.forall_mem_cons]
  exact ⟨by decide, by decide, by decide, by simp⟩

theorem oneLine_typeName (type : ColorType) : OneLine type.name := by
  cases type <;> decide

theorem Constant.oneLine_name (kind : Constant) : OneLine kind.name := by
  cases kind <;> decide

theorem Constant.oneLine_longName (kind : Constant) : OneLine kind.longName := by
  cases kind <;> decide

theorem Misplacement.oneLine_message {how : Misplacement}
    (h : ∀ text ∈ (Cause.misplaced how).texts, OneLine text) : OneLine how.message := by
  unfold Misplacement.message
  split <;> simp only [Cause.texts, List.mem_singleton, forall_eq] at h <;>
    try simp only [oneLine_append, oneLine_toString, h, true_and, and_true]
  all_goals simp [OneLine]

@[simp] theorem Quotes.oneLine_ofMisfit [Quotes] (misfit : Misfit) :
    OneLine (Quotes.ofMisfit misfit) :=
  newline_not_mem_ofMisfit misfit

@[simp] theorem Quotes.oneLine_ofSamples [Quotes] (image : Image) (data : Octets) :
    OneLine (Quotes.ofSamples image data) :=
  newline_not_mem_ofSamples image data

/-- A message is on one line if the texts from outside are. -/
theorem Cause.oneLine_message [Quotes] {cause : Cause} (h : ∀ text ∈ cause.texts, OneLine text) :
    OneLine cause.message := by
  cases cause with
  | misplaced how =>
    unfold Cause.message
    exact Misplacement.oneLine_message h
  | _ =>
    unfold Cause.message
    simp only [Cause.texts, List.mem_cons, List.not_mem_nil, or_false, forall_eq_or_imp,
      forall_eq] at h
    -- What is left of a message besides the texts from outside is fixed.
    try simp [h, oneLine_flags, oneLine_typeName, Constant.oneLine_name,
      Constant.oneLine_longName]
    all_goals simp [OneLine]

end Diagnostic

end ScriptedPng
