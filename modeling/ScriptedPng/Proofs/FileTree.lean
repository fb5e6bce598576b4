import ScriptedPng.FileTree

/-!
# What changes in a tree of files

A file that is written or removed changes the entry at its own place and no other one. Where a path
leads depends on the directories that it goes through, and what is found there on the entry at its
end besides. So a path goes on to lead to the same place while files come and go elsewhere.

## Main definitions

* `FileTree.directories` — the places that a path goes through.
* `FileTree.Keeps` — the directories of a tree, and the entries at some places, have stayed.

## Main statements

* `FileTree.follow_congr`, `FileTree.find_congr`, `FileTree.create_congr` — what following a path
  depends on.
* `FileTree.Keeps.write`, `FileTree.Keeps.remove` — what writing and removing a file keeps.
-/

namespace ScriptedPng.FileTree

variable {tree tree' after : FileTree} {place other : Place} {segment path : String}

/-! ## Entries -/

theorem lookup_filter_ne (h : other ≠ place) (entries : List (Place × Entry)) :
    (entries.filter (·.1 ≠ place)).lookup other = entries.lookup other := by
  induction entries with
  | nil => rfl
  | cons entry entries ih => grind

theorem lookup_filter_self (place : Place) (entries : List (Place × Entry)) :
    (entries.filter (·.1 ≠ place)).lookup place = none := by
  induction entries with
  | nil => rfl
  | cons entry entries ih => grind

/-- A place that need not be a directory is not the root. -/
theorem ne_nil (h : tree.entry? place ≠ some .directory) : place ≠ [] :=
  fun hroot => h (hroot ▸ rfl)

theorem entry?_of_ne_nil (h : place ≠ []) : tree.entry? place = tree.entries.lookup place := by
  cases place with
  | nil => exact absurd rfl h
  | cons => rfl

theorem entry?_write (h : tree.entry? place ≠ some .directory) (content : Octets) :
    entry? (tree.write place content) place = some (.file content) := by
  rw [entry?_of_ne_nil (ne_nil h)]
  exact List.lookup_cons_self

theorem entry?_write_of_ne (h : other ≠ place) (content : Octets) :
    entry? (tree.write place content) other = tree.entry? other := by
  cases other with
  | nil => rfl
  | cons name names =>
    simp only [write, put, entry?, List.lookup_cons, beq_false_of_ne h]
    exact lookup_filter_ne h _

theorem read_write (h : tree.entry? place ≠ some .directory) (content : Octets) :
    (tree.write place content).read place = content := by
  rw [read, entry?_write h]

theorem read_congr (h : tree'.entry? place = tree.entry? place) :
    tree'.read place = tree.read place := by
  rw [read, read, h]

theorem entry?_remove (hplace : tree.follow path = .ok place)
    (h : tree.entry? place ≠ some .directory) : entry? (tree.remove path) place = none := by
  rw [entry?_of_ne_nil (ne_nil h), remove, hplace]
  exact lookup_filter_self _ _

theorem entry?_remove_of_ne (h : tree.follow path ≠ .ok other) :
    entry? (tree.remove path) other = tree.entry? other := by
  unfold remove
  split
  · rename_i place hplace
    cases other with
    | nil => rfl
    | cons name names =>
      have hne : name :: names ≠ place := fun heq => h (heq ▸ hplace)
      exact lookup_filter_ne hne _
  · rfl

@[simp] theorem workingDirectory_write (content : Octets) :
    workingDirectory (tree.write place content) = tree.workingDirectory := rfl

@[simp] theorem workingDirectory_remove :
    workingDirectory (tree.remove path) = tree.workingDirectory := by
  unfold remove
  split <;> rfl

/-! ## Where a path leads -/

/-- The places that segments are followed from, as far as they can be. -/
def stations (tree : FileTree) (place : Place) : List String → List Place
  | [] => []
  | segment :: segments =>
    place :: match tree.step place segment with
      | .ok next => tree.stations next segments
      | .error _ => []

/-- The places that a path goes through: there has to be a directory at each of them. -/
def directories (tree : FileTree) (path : String) : List Place :=
  tree.stations (tree.start path) (Path.segments path)

theorem directory_of_step (h : tree.step place segment = .ok other) :
    tree.entry? place = some .directory := by
  unfold step at h
  split at h <;> simp_all

theorem step_congr (h : tree'.entry? place = tree.entry? place) :
    tree'.step place segment = tree.step place segment := by
  unfold step
  rw [h]

theorem foldlM_step_congr {segments : List String}
    (h : ∀ station ∈ tree.stations place segments, tree'.entry? station = tree.entry? station) :
    segments.foldlM tree'.step place = segments.foldlM tree.step place := by
  induction segments generalizing place with
  | nil => rfl
  | cons segment segments ih =>
    rw [stations, List.forall_mem_cons] at h
    rw [List.foldlM_cons, List.foldlM_cons, step_congr h.1]
    cases hstep : tree.step place segment with
    | error => rfl
    | ok next =>
      rw [hstep] at h
      exact ih h.2

/-- Nothing is followed from a place without a directory. -/
theorem stations_subset_singleton (h : tree.entry? place ≠ some .directory)
    (segments : List String) : tree.stations place segments ⊆ [place] := by
  cases segments with
  | nil => simp [stations]
  | cons segment segments =>
    cases hstep : tree.step place segment with
    | error => simp [stations, hstep]
    | ok next => exact absurd (directory_of_step hstep) h

theorem step_of_staysInPlace (h : tree.entry? place = some .directory)
    (hstays : Path.staysInPlace segment) : tree.step place segment = .ok place := by
  simp [step, h, hstays]

/-- Without the segments that stay in place, a path goes through no further places. -/
theorem stations_filter_subset (segments : List String) :
    tree.stations place (segments.filter (!Path.staysInPlace ·)) ⊆
      tree.stations place segments := by
  induction segments generalizing place with
  | nil => simp
  | cons segment segments ih =>
    by_cases hdirectory : tree.entry? place = some .directory
    · by_cases hstays : Path.staysInPlace segment
      · rw [List.filter_cons_of_neg (by simpa using hstays), stations,
          step_of_staysInPlace hdirectory hstays]
        exact List.subset_cons_of_subset _ ih
      · rw [List.filter_cons_of_pos (by simpa using hstays), stations, stations]
        refine List.cons_subset_cons _ ?_
        cases tree.step place segment with
        | error => simp
        | ok next => exact ih
    · exact List.Subset.trans (stations_subset_singleton hdirectory _) (by simp [stations])

/-- The last segment of a path does not matter for the places that the path goes through. -/
theorem stations_concat (front : List String) (first second : String) :
    tree.stations place (front ++ [first]) = tree.stations place (front ++ [second]) := by
  induction front generalizing place with
  | nil =>
    simp only [List.nil_append, stations]
    cases tree.step place first <;> cases tree.step place second <;> rfl
  | cons segment front ih =>
    simp only [List.cons_append, stations]
    cases tree.step place segment with
    | error => rfl
    | ok next => exact congrArg _ ih

/-- Empty segments at the start of a path add nothing but its start. -/
theorem stations_replicate_subset (n : Nat) (segments : List String) :
    tree.stations place (List.replicate n "" ++ segments) ⊆
      place :: tree.stations place segments := by
  induction n with
  | zero => exact List.subset_cons_self _ _
  | succ n ih =>
    by_cases hdirectory : tree.entry? place = some .directory
    · rw [List.replicate_succ, List.cons_append, stations,
        step_of_staysInPlace hdirectory rfl]
      exact List.cons_subset.mpr ⟨List.mem_cons_self, ih⟩
    · exact List.Subset.trans (stations_subset_singleton hdirectory _) (by simp)

theorem start_congr (h : tree'.workingDirectory = tree.workingDirectory) (path : String) :
    tree'.start path = tree.start path := by
  rw [start, start, h]

/-- Where a path leads depends on the places that it goes through. -/
theorem follow_congr (hstart : tree'.workingDirectory = tree.workingDirectory)
    (h : ∀ station ∈ tree.directories path, tree'.entry? station = tree.entry? station) :
    tree'.follow path = tree.follow path := by
  rw [follow, follow, start_congr hstart, foldlM_step_congr h]

/-- What is found depends on the entry at the end of the path besides. -/
theorem find_congr (hstart : tree'.workingDirectory = tree.workingDirectory)
    (h : ∀ station ∈ tree.directories path, tree'.entry? station = tree.entry? station)
    (hend : ∀ place, tree.follow path = .ok place → tree'.entry? place = tree.entry? place) :
    tree'.find path = tree.find path := by
  unfold find
  rw [follow_congr hstart h]
  cases hplace : tree.follow path with
  | error => rfl
  | ok place =>
    simp only [bind, Except.bind]
    rw [hend place hplace]

theorem find_eq_ok : tree.find path = .ok place ↔
    tree.follow path = .ok place ∧ ∃ content, tree.entry? place = some (.file content) := by
  unfold find
  cases hplace : tree.follow path with
  | error => simp [bind, Except.bind]
  | ok found =>
    simp only [bind, Except.bind]
    rcases hentry : tree.entry? found with _ | ⟨content⟩ | _ <;>
      simp [throw, throwThe, MonadExceptOf.throw, pure, Except.pure] <;> grind

theorem create_eq_ok : tree.create path = .ok (place, after) ↔
    tree.follow path = .ok place ∧ tree.entry? place ≠ some .directory ∧
      after = tree.write place [] := by
  unfold create
  cases hplace : tree.follow path with
  | error => simp [bind, Except.bind]
  | ok found =>
    simp only [bind, Except.bind]
    rcases hentry : tree.entry? found with _ | ⟨content⟩ | _ <;>
      simp [throw, throwThe, MonadExceptOf.throw, pure, Except.pure, write] <;> grind

theorem create_eq_error {fault : Fault} : tree.create path = .error fault ↔
    tree.follow path = .error fault ∨
      ∃ place, tree.follow path = .ok place ∧ tree.entry? place = some .directory ∧
        fault = .isDirectory := by
  unfold create
  cases hplace : tree.follow path with
  | error => simp [bind, Except.bind]
  | ok found =>
    simp only [bind, Except.bind]
    rcases hentry : tree.entry? found with _ | ⟨content⟩ | _ <;>
      simp [throw, throwThe, MonadExceptOf.throw, pure, Except.pure] <;> grind

/-! ## What stays -/

/-- The directories of a tree have stayed, and the entries at the places that are kept. -/
structure Keeps (kept : Place → Prop) (tree after : FileTree) : Prop where
  workingDirectory_eq : after.workingDirectory = tree.workingDirectory
  entry?_eq : ∀ place, kept place → after.entry? place = tree.entry? place
  directory_iff : ∀ place,
    after.entry? place = some .directory ↔ tree.entry? place = some .directory

namespace Keeps

variable {kept kept' : Place → Prop} {middle : FileTree}

theorem refl : Keeps kept tree tree where
  workingDirectory_eq := rfl
  entry?_eq _ _ := rfl
  directory_iff _ := Iff.rfl

theorem trans (h : Keeps kept tree middle) (h' : Keeps kept middle after) :
    Keeps kept tree after where
  workingDirectory_eq := h'.workingDirectory_eq.trans h.workingDirectory_eq
  entry?_eq place hplace := (h'.entry?_eq place hplace).trans (h.entry?_eq place hplace)
  directory_iff place := (h'.directory_iff place).trans (h.directory_iff place)

theorem mono (h : Keeps kept tree after) (hkept : ∀ place, kept' place → kept place) :
    Keeps kept' tree after where
  workingDirectory_eq := h.workingDirectory_eq
  entry?_eq place hplace := h.entry?_eq place (hkept place hplace)
  directory_iff := h.directory_iff

theorem write (hplace : ¬ kept place) (h : tree.entry? place ≠ some .directory)
    (content : Octets) : Keeps kept tree (tree.write place content) where
  workingDirectory_eq := workingDirectory_write content
  entry?_eq other hother := by
    have hne : other ≠ place := fun heq => hplace (heq ▸ hother)
    exact entry?_write_of_ne hne content
  directory_iff other := by
    by_cases heq : other = place
    · subst heq
      simp [entry?_write h, h]
    · rw [entry?_write_of_ne heq]

theorem remove (hkept : ∀ place, kept place → tree.follow path ≠ .ok place)
    (h : ∀ place, tree.follow path = .ok place → tree.entry? place ≠ some .directory) :
    Keeps kept tree (tree.remove path) where
  workingDirectory_eq := workingDirectory_remove
  entry?_eq place hplace := entry?_remove_of_ne (hkept place hplace)
  directory_iff place := by
    by_cases heq : tree.follow path = .ok place
    · simp [entry?_remove heq (h place heq), h place heq]
    · rw [entry?_remove_of_ne heq]

/-- A step from a directory leads to the same place as before. -/
theorem step_eq_ok (h : Keeps kept tree after) :
    after.step place segment = .ok other ↔ tree.step place segment = .ok other := by
  have hiff := h.directory_iff place
  constructor
  · intro hstep
    have hdirectory := directory_of_step hstep
    rwa [step_congr ((hiff.mp hdirectory).trans hdirectory.symm)]
  · intro hstep
    have hdirectory := directory_of_step hstep
    rwa [step_congr ((hiff.mpr hdirectory).trans hdirectory.symm)]

/-- A path leads to the same place as before. -/
theorem follow_eq_ok (h : Keeps kept tree after) :
    after.follow path = .ok place ↔ tree.follow path = .ok place := by
  have hfold (segments : List String) (first : Place) :
      segments.foldlM after.step first = .ok place ↔
        segments.foldlM tree.step first = .ok place := by
    induction segments generalizing first with
    | nil => rfl
    | cons segment segments ih =>
      have hstep (next : Place) : after.step first segment = .ok next ↔
          tree.step first segment = .ok next := h.step_eq_ok
      rw [List.foldlM_cons, List.foldlM_cons]
      cases htree : tree.step first segment with
      | error =>
        cases hafter : after.step first segment with
        | error => simp [bind, Except.bind]
        | ok next => simp [(hstep next).mp hafter] at htree
      | ok next =>
        rw [(hstep next).mpr htree]
        exact ih next
  rw [follow, follow, start_congr h.workingDirectory_eq]
  split
  · rfl
  · split
    · rfl
    · exact hfold _ _

end Keeps

end ScriptedPng.FileTree
