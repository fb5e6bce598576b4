import ScriptedPng.Proofs.CommandLine.File

/-!
# What becomes of the sources

A run over some paths changes no files but the images that belong to them. So a source stays as it
is, unless the image of some path belongs to its place. If that is its own path, the source is made
empty before it is read; since nothing can be made of an empty source, the file is then removed.

## Main statements

* `CommandLine.Machine.keeps_compileFiles` — a run changes nothing but images.
* `CommandLine.Machine.gone_compileFiles` — a source that is its own image is lost.
* `CommandLine.Machine.entry?_source_of_run` — what becomes of a source.
-/

namespace ScriptedPng.CommandLine.Machine

open FileTree (Entry Keeps)

variable {program path : String} {arguments paths : List String} {machine after : Machine}
  {place : FileTree.Place} {code : Nat}

section

variable [Diagnostic.Quotes]

/-! ## What a run changes -/

theorem outcome_compileFiles {post : Machine → Prop} {fault : Fault → Machine → Prop}
    (h : Outcome (fun _ after => post after) fault
      ((paths.mapM compileFile : Action (List Status)) machine)) :
    Outcome (fun _ after => post after) fault ((compileFiles paths : Action Nat) machine) :=
  .bind h fun _ _ hafter => hafter

/-- Whatever becomes of a run, no files but the images change. -/
theorem keeps_compileFiles (paths : List String) (machine : Machine) :
    Outcome (fun _ after => Keeps (NoImage machine.tree paths) machine.tree after.tree)
      (fun _ after => Keeps (NoImage machine.tree paths) machine.tree after.tree)
      ((compileFiles paths : Action Nat) machine) := by
  refine outcome_compileFiles ((Outcome.mapM (fun rest state => rest ⊆ paths ∧
    Keeps (NoImage machine.tree paths) machine.tree state.tree)
      ⟨List.Subset.refl _, .refl⟩ ?_).mono_post fun _ _ h => h.2)
  intro path rest state hstate
  obtain ⟨hsubset, hkeeps⟩ := hstate
  have hkept (place : FileTree.Place) (hplace : NoImage machine.tree paths place) :
      imagePlace? state.tree path ≠ some place :=
    mt (imagePlace?_of_keeps hkeeps).mp (hplace path (hsubset List.mem_cons_self))
  refine (keeps_compileFile path state).mono ?_ ?_
  · intro _ after hafter
    exact ⟨fun _ hmem => hsubset (List.mem_cons_of_mem _ hmem), hkeeps.trans (hafter.mono hkept)⟩
  · intro _ after hafter
    exact hkeeps.trans (hafter.mono hkept)

/-! ## A source that is its own image -/

/-- A source that is its own image is empty when it is read; it is removed in the end. -/
theorem compileFile_itself (machine : Machine) (himage : imagePlace? machine.tree path = some place)
    (hpath : isUsable path) (hsource : machine.tree.find path = .ok place) :
    ∃ tree : FileTree, tree.entry? place = none ∧
      (compileFile path : Action Status) machine = .ok .badSource
        { machine with
          tree
          errors :=
            machine.errors ++ (Diagnostic.mk .noPixels (some .ending)).report path ++ "\n" } := by
  obtain ⟨image, hname, hfollow⟩ := imagePlace?_eq_some.mp himage
  obtain ⟨-, content, hentry⟩ := FileTree.find_eq_ok.mp hsource
  have hfile : machine.tree.entry? place ≠ some .directory := by simp [hentry]
  have hcreate := FileTree.create_eq_ok.mpr ⟨hfollow, hfile, rfl⟩
  have hread : (machine.tree.write place []).read place = [] := FileTree.read_write hfile []
  have hreport := hread ▸ reportOn_nothing path
  refine ⟨_, entry?_settle hcreate [] .badSource, ?_⟩
  rw [compileFile_reported hname hpath hsource hcreate hreport, hread, String.append_assoc]
  rfl

/-- If the image of a path belongs to the place where the path itself leads, nothing is left there.
-/
theorem gone_compileFile (hplace : machine.tree.follow path = .ok place)
    (himage : imagePlace? machine.tree path = some place)
    (hentry : machine.tree.entry? place ≠ some .directory) :
    Outcome (fun _ after => after.tree.entry? place = none) (fun _ _ => True)
      ((compileFile path : Action Status) machine) := by
  obtain ⟨image, hname, -⟩ := imagePlace?_eq_some.mp himage
  by_cases hpath : isUsable path
  · cases hsource : machine.tree.find path with
    | error fault =>
      rw [compileFile_notOpened hname hpath hsource]
      cases hnone : machine.tree.entry? place with
      | none => exact hnone
      | some entry =>
        cases entry with
        | file content => simp [FileTree.find_eq_ok.mpr ⟨hplace, content, hnone⟩] at hsource
        | directory => exact absurd hnone hentry
    | ok source =>
      obtain rfl := Except.ok.inj (hplace.symm.trans (FileTree.find_eq_ok.mp hsource).1)
      obtain ⟨tree, hgone, hrun⟩ := compileFile_itself machine himage hpath hsource
      rw [hrun]
      exact hgone
  · rw [compileFile_unusable hname hpath]
    exact trivial

theorem gone_compileFiles (hpath : path ∈ paths) (hplace : machine.tree.follow path = .ok place)
    (himage : imagePlace? machine.tree path = some place)
    (hentry : machine.tree.entry? place ≠ some .directory)
    (hothers : ∀ other ∈ paths, other ≠ path → imagePlace? machine.tree other ≠ some place) :
    Outcome (fun _ after => after.tree.entry? place = none) (fun _ _ => True)
      ((compileFiles paths : Action Nat) machine) := by
  -- Either the path is still to come, or the file is gone already.
  refine outcome_compileFiles ((Outcome.mapM (fun rest state => rest ⊆ paths ∧
    Keeps (fun _ => False) machine.tree state.tree ∧
      (path ∈ rest ∨ state.tree.entry? place = none))
    ⟨List.Subset.refl _, .refl, .inl hpath⟩ ?_).mono_post fun _ _ h => by simpa using h.2.2)
  intro item rest state hstate
  obtain ⟨hsubset, hkeeps, hleft⟩ := hstate
  have hrest : rest ⊆ paths := fun _ hmem => hsubset (List.mem_cons_of_mem _ hmem)
  have hstep : Outcome
      (fun _ after => Keeps (imagePlace? state.tree item ≠ some ·) state.tree after.tree)
      (fun _ _ => True) ((compileFile item : Action Status) state) :=
    (keeps_compileFile item state).mono_fault fun _ _ _ => trivial
  by_cases hitem : item = path
  · subst hitem
    have hgone := gone_compileFile (hkeeps.follow_eq_ok.mpr hplace)
      ((imagePlace?_of_keeps hkeeps).mpr himage) (mt (hkeeps.directory_iff place).mp hentry)
    refine (hstep.and hgone).mono ?_ fun _ _ _ => trivial
    intro _ after hafter
    exact ⟨hrest, hkeeps.trans (hafter.1.mono fun _ => False.elim), .inr hafter.2⟩
  · have hmem : item ∈ paths := hsubset List.mem_cons_self
    have hother : imagePlace? state.tree item ≠ some place :=
      mt (imagePlace?_of_keeps hkeeps).mp (hothers item hmem hitem)
    refine hstep.mono_post ?_
    intro _ after hafter
    refine ⟨hrest, hkeeps.trans (hafter.mono fun _ => False.elim), ?_⟩
    rcases hleft with hleft | hnone
    · exact .inl ((List.mem_cons.mp hleft).resolve_left (Ne.symm hitem))
    · exact .inr ((hafter.entry?_eq place hother).trans hnone)

/-! ## Sources -/

/-- Suppose that no argument names the image of another one. After a run that comes to its end, a
source that has been there is as it was; only a source whose image is the source itself is gone,
unless the run has been asked for the usage. -/
theorem entry?_source_of_run
    (hapart : ∀ path ∈ arguments, ∀ other ∈ arguments, other ≠ path → ∀ place,
      machine.tree.follow path = .ok place → imagePlace? machine.tree other ≠ some place)
    (hrun : run program arguments machine = .ok code after) (hpath : path ∈ arguments)
    (hsource : machine.tree.find path = .ok place) :
    after.tree.entry? place =
      if (∀ argument ∈ arguments, argument ∉ helpOptions) ∧
          imagePlace? machine.tree path = some place then none
      else machine.tree.entry? place := by
  obtain ⟨hplace, content, hentry⟩ := FileTree.find_eq_ok.mp hsource
  have hothers (other : String) (hother : other ∈ arguments) (hne : other ≠ path) :
      imagePlace? machine.tree other ≠ some place :=
    hapart path hpath other hother hne place hplace
  by_cases hhelp : ∀ argument ∈ arguments, argument ∉ helpOptions
  · rw [run_eq (List.ne_nil_of_mem hpath) hhelp] at hrun
    by_cases hown : imagePlace? machine.tree path = some place
    · have hgone := gone_compileFiles hpath hplace hown (by simp [hentry]) hothers
      rw [hrun] at hgone
      rwa [if_pos ⟨hhelp, hown⟩]
    · have hkeeps := keeps_compileFiles arguments machine
      rw [hrun] at hkeeps
      rw [if_neg fun h => hown h.2]
      refine hkeeps.entry?_eq place fun other hother => ?_
      by_cases hne : other = path
      · exact hne ▸ hown
      · exact hothers other hother hne
  · rw [if_neg fun h => hhelp h.1, tree_of_run (by simpa using hhelp) hrun]

end

section

attribute [local instance] Diagnostic.Quotes.plain

/-- A source whose name has the suffix of images already. -/
def endangered : Machine where
  tree :=
    { entries := [(["home"], .directory),
        (["home", "a.png"], .file (Octets.ofText "IHDR{width 1 height 1}IMAGE{00}"))]
      workingDirectory := ["home"] }

/-- Not every source outlives the run, though the only argument names no image of another one. -/
theorem endangered_lost :
    (∀ path ∈ ["a.png"], ∀ other ∈ ["a.png"], other ≠ path → ∀ place,
      endangered.tree.follow path = .ok place → imagePlace? endangered.tree other ≠ some place) ∧
    endangered.tree.find "a.png" = .ok ["home", "a.png"] ∧
    ∃ after, run "sngc" ["a.png"] endangered = .ok 1 after ∧
      after.tree.entry? ["home", "a.png"] ≠ endangered.tree.entry? ["home", "a.png"] := by
  have himage : imagePlace? endangered.tree "a.png" = some ["home", "a.png"] := rfl
  obtain ⟨tree, hgone, hfile⟩ := compileFile_itself endangered himage rfl rfl
  have hfiles : (["a.png"].mapM compileFile : Action (List Status)) endangered = _ :=
    mapM_cons_of_ok hfile rfl
  refine ⟨by simp, rfl, _, run_eq_ok _ (by simp) (by decide) hfiles, ?_⟩
  have hentry : endangered.tree.entry? ["home", "a.png"] ≠ none := by
    simp [endangered, FileTree.entry?]
  rw [show Machine.tree _ = tree from rfl, hgone]
  exact hentry.symm

theorem entry?_source_of_run_endangered :
    (∀ path ∈ ["b.sng", "/home/a.png"], ∀ other ∈ ["b.sng", "/home/a.png"], other ≠ path →
      ∀ place, endangered.tree.follow path = .ok place →
        imagePlace? endangered.tree other ≠ some place) ∧
    ∃ after, run "sngc" ["b.sng", "/home/a.png"] endangered = .ok 1 after ∧
      after.tree.entry? ["home", "a.png"] = none := by
  have himage : imagePlace? endangered.tree "/home/a.png" = some ["home", "a.png"] := rfl
  have hmissing : (compileFile "b.sng" : Action Status) endangered = _ :=
    compileFile_notOpened rfl rfl rfl
  obtain ⟨tree, -, hfile⟩ := compileFile_itself
    { endangered with
      errors := endangered.errors ++ s!"b.sng: can't open: {FileTree.Fault.missing.message}\n" }
    himage rfl rfl
  have hfiles : (["b.sng", "/home/a.png"].mapM compileFile : Action (List Status)) endangered = _ :=
    mapM_cons_of_ok hmissing (mapM_cons_of_ok hfile rfl)
  have hrun := run_eq_ok "sngc" (by simp) (by decide) hfiles
  have hapart : ∀ path ∈ ["b.sng", "/home/a.png"], ∀ other ∈ ["b.sng", "/home/a.png"],
      other ≠ path → ∀ place, endangered.tree.follow path = .ok place →
        imagePlace? endangered.tree other ≠ some place := by
    intro path hpath other hother hne place hplace
    simp only [List.mem_cons, List.not_mem_nil, or_false] at hpath hother
    rcases hpath with rfl | rfl <;> rcases hother with rfl | rfl
    · exact absurd rfl hne
    · obtain rfl : ["home", "b.sng"] = place := Except.ok.inj hplace
      decide
    · obtain rfl : ["home", "a.png"] = place := Except.ok.inj hplace
      decide
    · exact absurd rfl hne
  have hmem : "/home/a.png" ∈ ["b.sng", "/home/a.png"] := by simp
  have hsource : endangered.tree.find "/home/a.png" = .ok ["home", "a.png"] := rfl
  have hgone := entry?_source_of_run hapart hrun hmem hsource
  rw [if_pos ⟨by decide, himage⟩] at hgone
  exact ⟨hapart, _, hrun, hgone⟩

end

end ScriptedPng.CommandLine.Machine
