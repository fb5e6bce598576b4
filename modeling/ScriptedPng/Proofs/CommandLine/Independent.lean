import ScriptedPng.Proofs.CommandLine.File
import ScriptedPng.Proofs.Reported

/-!
# Files that are compiled on their own

If the images of the arguments are different files, and none of them is a source or a directory that
an argument goes through, the compilations do not get in each other's way. Each file ends as the
tree in which the run starts says, whatever is compiled before it. So the order of the arguments
decides on nothing but the order of what is reported.

## Main definitions

* `CommandLine.Machine.Ending`, `CommandLine.Machine.Ends` — how the compilation of a file ends.
* `CommandLine.Machine.Independent` — arguments that do not get in each other's way.
* `CommandLine.Machine.Reflects` — a tree shows how the compilations have ended.

## Main statements

* `CommandLine.Machine.Ends.congr` — what the ending of a compilation depends on.
* `CommandLine.Machine.compileFile_of_ends` — what a compilation does to the machine.
* `CommandLine.Machine.run_independent` — a run over independent arguments.
-/

namespace ScriptedPng.CommandLine.Machine

open FileTree (Entry Keeps)

variable {tree after : FileTree} {path : String} {machine : Machine} {place : FileTree.Place}

/-! ## Endings -/

/-- How the compilation of a file ends. -/
inductive Ending where
  /-- The source cannot be opened. -/
  | notOpened (fault : FileTree.Fault)
  /-- The image cannot be created. -/
  | notCreated (image : String) (fault : FileTree.Fault)
  | made (octets : Octets)
  | failed (diagnostic : Diagnostic)

namespace Ending

/-- The status, and what is reported. -/
def report [Diagnostic.Quotes] (path : String) : Ending → Report
  | notOpened fault =>
    { status := .badSource, text := s!"{path}: can't open: {fault.message}\n" }
  | notCreated image fault =>
    { status := .badImage, text := s!"{image}: can't create: {fault.message}\n" }
  | made _ => { status := .success }
  | failed diagnostic => .ofDiagnostic path diagnostic

/-- What there is at the place of the image afterwards. -/
def entry (tree : FileTree) (place : FileTree.Place) : Ending → Option Entry
  | notOpened _ | notCreated _ _ => tree.entry? place
  | made octets => some (.file octets)
  | failed _ => none

theorem entry_congr (h : after.entry? place = tree.entry? place) (ending : Ending) :
    ending.entry after place = ending.entry tree place := by
  cases ending <;> simp [entry, h]

end Ending

/-- How the compilation of the source at a path ends, if it is all that happens to the tree. -/
inductive Ends (tree : FileTree) (path : String) : Ending → Prop where
  | notOpened {fault : FileTree.Fault} (hsource : tree.find path = .error fault) :
    Ends tree path (.notOpened fault)
  | notCreated {image : String} {source : FileTree.Place} {fault : FileTree.Fault}
    (himage : outputPath? path = some image) (hsource : tree.find path = .ok source)
    (hcreate : tree.create image = .error fault) : Ends tree path (.notCreated image fault)
  | made {image : String} {source : FileTree.Place} {created : FileTree.Place × FileTree}
    (himage : outputPath? path = some image) (hsource : tree.find path = .ok source)
    (hcreate : tree.create image = .ok created)
    (hresult : (compile (.ofOctets (tree.read source)) {}).1 = .ok ()) :
    Ends tree path (.made (imageOf (tree.read source)))
  | failed {image : String} {source : FileTree.Place} {created : FileTree.Place × FileTree}
    {diagnostic : Diagnostic}
    (himage : outputPath? path = some image) (hsource : tree.find path = .ok source)
    (hcreate : tree.create image = .ok created)
    (hresult : (compile (.ofOctets (tree.read source)) {}).1 = .error (.diagnostic diagnostic)) :
    Ends tree path (.failed diagnostic)

/-- The places whose entries decide how the compilation of the source at a path ends. -/
def Concerns (tree : FileTree) (path : String) (place : FileTree.Place) : Prop :=
  place ∈ tree.directories path ∨ tree.follow path = .ok place ∨ imagePlace? tree path = some place

/-- How a compilation ends depends on the places that concern it. -/
theorem Ends.congr {ending : Ending} (hends : Ends tree path ending)
    (hstart : after.workingDirectory = tree.workingDirectory)
    (h : ∀ place, Concerns tree path place → after.entry? place = tree.entry? place) :
    Ends after path ending := by
  have hfind : after.find path = tree.find path :=
    FileTree.find_congr hstart (fun station hstation => h station (.inl hstation))
      fun place hplace => h place (.inr (.inl hplace))
  have hread (source : FileTree.Place) (hsource : tree.find path = .ok source) :
      after.read source = tree.read source :=
    FileTree.read_congr (h source (.inr (.inl (FileTree.find_eq_ok.mp hsource).1)))
  have hfollow (image : String) (himage : outputPath? path = some image) :
      after.follow image = tree.follow image :=
    FileTree.follow_congr hstart fun station hstation =>
      h station (.inl (directories_image himage hstation))
  have hentry (image : String) (place : FileTree.Place) (himage : outputPath? path = some image)
      (hplace : tree.follow image = .ok place) : after.entry? place = tree.entry? place :=
    h place (.inr (.inr (imagePlace?_of_follow himage hplace)))
  have hcreated (image : String) (created : FileTree.Place × FileTree)
      (himage : outputPath? path = some image) (hcreate : tree.create image = .ok created) :
      after.create image = .ok (created.1, after.write created.1 []) := by
    obtain ⟨hplace, hfile, -⟩ := FileTree.create_eq_ok.mp hcreate
    refine FileTree.create_eq_ok.mpr ⟨(hfollow image himage).trans hplace, ?_, rfl⟩
    rwa [hentry image _ himage hplace]
  cases hends with
  | notOpened hsource => exact .notOpened (hfind.trans hsource)
  | @notCreated image source fault himage hsource hcreate =>
    refine .notCreated himage (hfind.trans hsource) (FileTree.create_eq_error.mpr ?_)
    rcases FileTree.create_eq_error.mp hcreate with hlost | ⟨place, hplace, hdirectory, rfl⟩
    · exact .inl ((hfollow image himage).trans hlost)
    · exact .inr ⟨place, (hfollow image himage).trans hplace,
        (hentry image place himage hplace).trans hdirectory, rfl⟩
  | @made image source created himage hsource hcreate hresult =>
    rw [← hread source hsource] at hresult ⊢
    exact .made himage (hfind.trans hsource) (hcreated image created himage hcreate) hresult
  | @failed image source created diagnostic himage hsource hcreate hresult =>
    rw [← hread source hsource] at hresult
    exact .failed himage (hfind.trans hsource) (hcreated image created himage hcreate) hresult

/-! ## One compilation -/

/-- A tree shows how the compilations of the sources at the paths have ended; all else is as it was.
-/
structure Reflects (tree : FileTree) (ending : String → Ending) (paths : List String)
    (after : FileTree) : Prop where
  keeps : Keeps (NoImage tree paths) tree after
  image : ∀ path ∈ paths, ∀ place, imagePlace? tree path = some place →
    after.entry? place = (ending path).entry tree place

variable {ending : String → Ending} {arguments order done rest : List String}

theorem reflects_same (h : ∀ place, (ending path).entry tree place = tree.entry? place) :
    Reflects tree ending [path] tree where
  keeps := .refl
  image other hother place _ := by
    rw [List.mem_singleton.mp hother, h]

/-- Once an image has been created, the compilation settles the tree. -/
theorem reflects_settle {image : String} {created : FileTree} {content : Octets} {status : Status}
    (himage : outputPath? path = some image) (hcreate : tree.create image = .ok (place, created))
    (h : (ending path).entry tree place =
      if status = .success then some (.file (imageOf content)) else none) :
    Reflects tree ending [path] (settle created image place content status) := by
  have hplace : imagePlace? tree path = some place :=
    imagePlace?_of_follow himage (FileTree.create_eq_ok.mp hcreate).1
  constructor
  · refine (keeps_settle hcreate content status).mono fun other hother heq => ?_
    exact hother path (List.mem_singleton_self path) (heq ▸ hplace)
  · intro other hother place' hplace'
    rw [List.mem_singleton] at hother
    subst hother
    obtain rfl := Option.some.inj (hplace.symm.trans hplace')
    rw [h, entry?_settle hcreate]

/-- A compilation that is not concerned by those before it adds what it does itself. -/
theorem Reflects.concat {middle : FileTree} (hdone : Reflects tree ending done middle)
    (hstep : Reflects middle ending [path] after)
    (hundisturbed : ∀ place, imagePlace? tree path = some place → NoImage tree done place) :
    Reflects tree ending (done ++ [path]) after := by
  have hsame (place : FileTree.Place) :
      imagePlace? middle path = some place ↔ imagePlace? tree path = some place :=
    imagePlace?_of_keeps hdone.keeps
  constructor
  · refine (hdone.keeps.mono fun place hplace other hother => ?_).trans
      (hstep.keeps.mono fun place hplace other hother => ?_)
    · exact hplace other (List.mem_append_left _ hother)
    · rw [List.mem_singleton.mp hother]
      exact mt (hsame place).mp (hplace path (by simp))
  · intro other hother place hplace
    rcases List.mem_append.mp hother with hother | hother
    · have hkept : after.entry? place = middle.entry? place := by
        refine hstep.keeps.entry?_eq place fun last hlast himage => ?_
        rw [List.mem_singleton.mp hlast] at himage
        exact hundisturbed place ((hsame place).mp himage) other hother hplace
      rw [hkept, hdone.image other hother place hplace]
    · rw [List.mem_singleton] at hother
      subst hother
      have hbefore : middle.entry? place = tree.entry? place :=
        hdone.keeps.entry?_eq place (hundisturbed place hplace)
      rw [hstep.image other (List.mem_singleton_self other) place ((hsame place).mpr hplace),
        Ending.entry_congr hbefore]

/-- What a tree shows of the compilations decides on all of its entries. -/
theorem Reflects.entry?_eq {last : FileTree} (h : Reflects tree ending arguments after)
    (hlast : Reflects tree ending order last) (hperm : order.Perm arguments)
    (place : FileTree.Place) :
    last.entry? place = after.entry? place := by
  by_cases himage : ∃ path ∈ arguments, imagePlace? tree path = some place
  · obtain ⟨path, hpath, hplace⟩ := himage
    rw [h.image path hpath place hplace, hlast.image path (hperm.mem_iff.mpr hpath) place hplace]
  · have hother : NoImage tree arguments place :=
      fun path hpath hplace => himage ⟨path, hpath, hplace⟩
    rw [h.keeps.entry?_eq place hother,
      hlast.keeps.entry?_eq place fun path hpath => hother path (hperm.mem_iff.mp hpath)]

theorem foldl_max_eq {codes : List Nat} {code : Nat} (h : codes.max? = some code) :
    codes.foldl max 0 = code := by
  cases codes with
  | nil => cases h
  | cons first codes =>
    rw [List.foldl_cons, Nat.zero_max]
    exact Option.some.inj h

section

variable [Diagnostic.Quotes]

/-- If the image is another file than the source, the source is read as it was. -/
theorem compileFile_settled {image : String} {source : FileTree.Place} {created : FileTree}
    {report : Report}
    (himage : outputPath? path = some image) (hpath : isUsable path)
    (hsource : machine.tree.find path = .ok source)
    (hcreate : machine.tree.create image = .ok (place, created)) (hother : source ≠ place)
    (hreport : reportOn path (machine.tree.read source) = .ok report) :
    (compileFile path : Action Status) machine = .ok report.status
      { machine with
        tree := settle created image place (machine.tree.read source) report.status
        errors := machine.errors ++ report.text } := by
  obtain ⟨-, -, rfl⟩ := FileTree.create_eq_ok.mp hcreate
  have hread : (machine.tree.write place []).read source = machine.tree.read source :=
    FileTree.read_congr (FileTree.entry?_write_of_ne hother [])
  rw [← hread] at hreport ⊢
  exact compileFile_reported himage hpath hsource hcreate hreport

/-- A compilation whose image is another file than its source does to the machine what its ending
says. -/
theorem compileFile_of_ends (hends : Ends machine.tree path (ending path)) (hpath : isUsable path)
    (hnamed : outputPath? path ≠ none)
    (hother : ∀ place, imagePlace? machine.tree path = some place →
      machine.tree.follow path ≠ .ok place) :
    ∃ tree : FileTree, Reflects machine.tree ending [path] tree ∧
      (compileFile path : Action Status) machine = .ok ((ending path).report path).status
        { machine with tree, errors := machine.errors ++ ((ending path).report path).text } := by
  have hne {image : String} {source place : FileTree.Place} {created : FileTree}
      (himage : outputPath? path = some image) (hsource : machine.tree.find path = .ok source)
      (hcreate : machine.tree.create image = .ok (place, created)) : source ≠ place := by
    rintro rfl
    exact hother source (imagePlace?_of_follow himage (FileTree.create_eq_ok.mp hcreate).1)
      (FileTree.find_eq_ok.mp hsource).1
  generalize hending : ending path = last at hends
  cases hends with
  | notOpened hsource =>
    obtain ⟨image, himage⟩ := Option.ne_none_iff_exists'.mp hnamed
    exact ⟨machine.tree, reflects_same (by simp [hending, Ending.entry]),
      compileFile_notOpened himage hpath hsource⟩
  | notCreated himage hsource hcreate =>
    exact ⟨machine.tree, reflects_same (by simp [hending, Ending.entry]),
      compileFile_notCreated himage hpath hsource hcreate⟩
  | @made image source created himage hsource hcreate hresult =>
    have hreport : reportOn path (machine.tree.read source) = .ok { status := .success } := by
      rw [reportOn, hresult]
      rfl
    refine ⟨_, reflects_settle himage hcreate ?_,
      compileFile_settled himage hpath hsource hcreate (hne himage hsource hcreate) hreport⟩
    rw [hending]
    rfl
  | @failed image source created diagnostic himage hsource hcreate hresult =>
    have hreport :
        reportOn path (machine.tree.read source) = .ok (.ofDiagnostic path diagnostic) := by
      rw [reportOn, hresult]
      rfl
    have hstatus : ((Ending.failed diagnostic).report path).status ≠ .success :=
      (Report.status_ofDiagnostic path diagnostic).1
    refine ⟨_, reflects_settle himage hcreate ?_,
      compileFile_settled himage hpath hsource hcreate (hne himage hsource hcreate) hreport⟩
    rw [hending, if_neg hstatus]
    rfl

/-! ## Independent arguments -/

/-- Arguments that do not get in each other's way: paths of files, each one with an image of its own
that is neither the source of an argument nor a directory that an argument goes through. Whatever
becomes of the sources is reported. -/
structure Independent (tree : FileTree) (arguments : List String) : Prop where
  /-- The arguments are paths: there is no character in them that no path can have. -/
  usable : ∀ path ∈ arguments, isUsable path
  named : ∀ path ∈ arguments, outputPath? path ≠ none
  different : arguments.Pairwise fun path other =>
    ∀ place, imagePlace? tree path = some place → imagePlace? tree other ≠ some place
  not_source : ∀ path ∈ arguments, ∀ other ∈ arguments, ∀ place,
    imagePlace? tree path = some place → tree.follow other ≠ .ok place
  not_directory : ∀ path ∈ arguments, ∀ other ∈ arguments, ∀ place,
    imagePlace? tree path = some place → place ∉ tree.directories other
  reported : ∀ path ∈ arguments, ∀ image source created, outputPath? path = some image →
    tree.find path = .ok source → tree.create image = .ok created →
    ∃ report, reportOn path (tree.read source) = .ok report

namespace Independent

theorem perm (h : Independent tree arguments) (hperm : order.Perm arguments) :
    Independent tree order where
  usable path hpath := h.usable path (hperm.mem_iff.mp hpath)
  named path hpath := h.named path (hperm.mem_iff.mp hpath)
  different := by
    refine h.different.perm hperm.symm fun hdifferent place hplace hother => ?_
    exact hdifferent place hother hplace
  not_source path hpath other hother :=
    h.not_source path (hperm.mem_iff.mp hpath) other (hperm.mem_iff.mp hother)
  not_directory path hpath other hother :=
    h.not_directory path (hperm.mem_iff.mp hpath) other (hperm.mem_iff.mp hother)
  reported path hpath := h.reported path (hperm.mem_iff.mp hpath)

/-- Every compilation ends in some way. -/
theorem exists_ends (h : Independent tree arguments) (hpath : path ∈ arguments) :
    ∃ ending, Ends tree path ending := by
  obtain ⟨image, himage⟩ := Option.ne_none_iff_exists'.mp (h.named path hpath)
  cases hsource : tree.find path with
  | error fault => exact ⟨_, .notOpened hsource⟩
  | ok source =>
    cases hcreate : tree.create image with
    | error fault => exact ⟨_, .notCreated himage hsource hcreate⟩
    | ok created =>
      obtain ⟨report, hreport⟩ := h.reported path hpath image source created himage hsource hcreate
      rw [reportOn] at hreport
      cases hresult : (compile (.ofOctets (tree.read source)) {}).1 with
      | ok _ => exact ⟨_, .made himage hsource hcreate hresult⟩
      | error failure =>
        cases failure with
        | diagnostic diagnostic => exact ⟨_, .failed himage hsource hcreate hresult⟩
        | _ =>
          rw [hresult] at hreport
          cases hreport

/-- What has been compiled before does not concern a path. -/
theorem undisturbed (h : Independent tree (done ++ path :: rest))
    (hconcerns : Concerns tree path place) : NoImage tree done place := by
  intro other hother himage
  have hmem : other ∈ done ++ path :: rest := List.mem_append_left _ hother
  have hpath : path ∈ done ++ path :: rest := by simp
  rcases hconcerns with hstation | hsource | hplace
  · exact h.not_directory other hmem path hpath place himage hstation
  · exact h.not_source other hmem path hpath place himage hsource
  · obtain ⟨-, -, hdifferent⟩ := List.pairwise_append.mp h.different
    exact hdifferent other hother path List.mem_cons_self place himage hplace

end Independent

/-! ## Runs over independent arguments -/

/-- Some of the arguments have been compiled, and the rest is compiled now. -/
theorem mapM_compileFile (machine : Machine) (h : Independent tree (done ++ rest))
    (hends : ∀ path ∈ rest, Ends tree path (ending path))
    (hdone : Reflects tree ending done machine.tree) :
    ∃ after : FileTree, Reflects tree ending (done ++ rest) after ∧
      (rest.mapM compileFile : Action (List Status)) machine =
        .ok (rest.map fun path => ((ending path).report path).status)
          { machine with
            tree := after
            errors := machine.errors ++
              String.join (rest.map fun path => ((ending path).report path).text) } := by
  induction rest generalizing done machine with
  | nil =>
    refine ⟨machine.tree, by simpa using hdone, ?_⟩
    simp [pure, EStateM.pure, String.join]
  | cons path rest ih =>
    have hpath : path ∈ done ++ path :: rest := by simp
    have hconcerns (place : FileTree.Place) (hplace : Concerns tree path place) :
        machine.tree.entry? place = tree.entry? place :=
      hdone.keeps.entry?_eq place (h.undisturbed hplace)
    have hother (place : FileTree.Place) (hplace : imagePlace? machine.tree path = some place) :
        machine.tree.follow path ≠ .ok place :=
      mt hdone.keeps.follow_eq_ok.mp (h.not_source path hpath path hpath place
        ((imagePlace?_of_keeps hdone.keeps).mp hplace))
    have hpathEnds : Ends machine.tree path (ending path) :=
      (hends path List.mem_cons_self).congr hdone.keeps.workingDirectory_eq hconcerns
    obtain ⟨middle, hstep, hfile⟩ :=
      compileFile_of_ends hpathEnds (h.usable path hpath) (h.named path hpath) hother
    have hmiddle : Reflects tree ending (done ++ [path]) middle :=
      hdone.concat hstep fun place hplace => h.undisturbed (.inr (.inr hplace))
    have hsplit : done ++ path :: rest = (done ++ [path]) ++ rest := by simp
    rw [hsplit] at h ⊢
    obtain ⟨last, hlast, hrest⟩ := ih
      { machine with
        tree := middle
        errors := machine.errors ++ ((ending path).report path).text } h
      (fun other hother => hends other (List.mem_cons_of_mem _ hother)) hmiddle
    refine ⟨last, hlast, ?_⟩
    rw [mapM_cons_of_ok hfile hrest, List.map_cons, List.map_cons, String.join_cons,
      String.append_assoc]

/-- Arguments that do not get in each other's way are compiled each on its own, and nothing escapes:
each compilation ends as it does in the tree in which the run starts, and the tree afterwards shows
all the endings and has not changed otherwise. The gravest status is the one of the run, and the
reports follow each other as the arguments do; in another order they would be the same. -/
theorem run_independent (program : String) (hsome : arguments ≠ [])
    (hhelp : ∀ argument ∈ arguments, argument ∉ helpOptions)
    (h : Independent machine.tree arguments) :
    ∃ (ending : String → Ending) (code : Nat) (last : FileTree),
      (∀ path ∈ arguments, Ends machine.tree path (ending path)) ∧
      (arguments.map fun path => ((ending path).report path).status.code).max? = some code ∧
      Reflects machine.tree ending arguments last ∧
      ∀ order, order.Perm arguments → ∃ after : FileTree,
        run program order machine = .ok code
          { machine with
            tree := after
            errors := machine.errors ++
              String.join (order.map fun path => ((ending path).report path).text) } ∧
        ∀ place, after.entry? place = last.entry? place := by
  have hexists (path : String) : ∃ ending, path ∈ arguments → Ends machine.tree path ending := by
    by_cases hpath : path ∈ arguments
    · obtain ⟨ending, hending⟩ := h.exists_ends hpath
      exact ⟨ending, fun _ => hending⟩
    · exact ⟨.notOpened .missing, fun hmem => absurd hmem hpath⟩
  obtain ⟨ending, hends⟩ := Classical.skolem.mp hexists
  have hstart : Reflects machine.tree ending [] machine.tree := ⟨.refl, by simp⟩
  -- Every order of the arguments has a run that reflects the same endings.
  have hrun (order : List String) (hperm : order.Perm arguments) :=
    mapM_compileFile machine (show Independent machine.tree ([] ++ order) from h.perm hperm)
      (fun path hpath => hends path (hperm.mem_iff.mp hpath)) hstart
  obtain ⟨last, hlast, -⟩ := hrun arguments (.refl _)
  obtain ⟨code, hcode⟩ : ∃ code,
      (arguments.map fun path => ((ending path).report path).status.code).max? = some code :=
    Option.isSome_iff_exists.mp (by simpa using hsome)
  refine ⟨ending, code, last, hends, hcode, hlast, fun order hperm => ?_⟩
  obtain ⟨after, hafter, hfiles⟩ := hrun order hperm
  have hmax : (order.map fun path => ((ending path).report path).status.code).max? = some code := by
    rw [List.max?_eq_some_iff] at hcode ⊢
    simpa only [(hperm.map _).mem_iff] using hcode
  refine ⟨after, ?_, hlast.entry?_eq hafter hperm⟩
  rw [run_eq_ok program (fun heq => hsome (heq ▸ hperm).nil_eq.symm)
    (fun argument hargument => hhelp argument (hperm.mem_iff.mp hargument)) hfiles, List.map_map]
  exact congrArg (EStateM.Result.ok · _) (foldl_max_eq hmax)

end

section

attribute [local instance] Diagnostic.Quotes.plain

/-- A source that compiles and an empty one with an old image in the working directory; elsewhere
another one, with a directory in the way of its image. -/
def crowded : Machine where
  tree :=
    { entries := [(["home"], .directory),
        (["home", "a.sng"], .file (Octets.ofText "IHDR{width 1 height 1}IMAGE{00}")),
        (["home", "b.sng"], .file []), (["home", "b.png"], .file [137]), (["srv"], .directory),
        (["srv", "c.sng"], .file []), (["srv", "c.png"], .directory)]
      workingDirectory := ["home"] }

/-- The sources by all kinds of paths, and one that does not exist. -/
def crowd : List String := ["a.sng", "/home/b.sng", "../srv/c.sng", "d.sng"]

theorem reportOn_crowded {source : FileTree.Place} (hsource : crowded.tree.find path = .ok source)
    (hpath : path ∈ crowd) :
    ∃ report, reportOn path (crowded.tree.read source) = .ok report := by
  have hok : (compile (.ofOctets (Octets.ofText "IHDR{width 1 height 1}IMAGE{00}")) {}).1.isOk :=
    by decide +kernel
  simp only [crowd, List.mem_cons, List.not_mem_nil, or_false] at hpath
  rcases hpath with rfl | rfl | rfl | rfl
  · obtain rfl : ["home", "a.sng"] = source := Except.ok.inj hsource
    change ∃ report, reportOn _ (Octets.ofText _) = _
    unfold reportOn
    generalize (compile (.ofOctets (Octets.ofText "IHDR{width 1 height 1}IMAGE{00}")) {}).1 = result
      at hok
    cases result with
    | ok _ => exact ⟨_, rfl⟩
    | error failure => cases hok
  · obtain rfl : ["home", "b.sng"] = source := Except.ok.inj hsource
    exact ⟨_, reportOn_nothing _⟩
  · obtain rfl : ["srv", "c.sng"] = source := Except.ok.inj hsource
    exact ⟨_, reportOn_nothing _⟩
  · cases hsource

theorem independent_crowded : Independent crowded.tree crowd := by
  have ha : imagePlace? crowded.tree "a.sng" = some ["home", "a.png"] := rfl
  have hb : imagePlace? crowded.tree "/home/b.sng" = some ["home", "b.png"] := rfl
  have hc : imagePlace? crowded.tree "../srv/c.sng" = some ["srv", "c.png"] := rfl
  have hd : imagePlace? crowded.tree "d.sng" = some ["home", "d.png"] := rfl
  constructor
  · decide
  · decide
  · simp [crowd, ha, hb, hc, hd]
  · simp [crowd, ha, hb, hc, hd,
      show crowded.tree.follow "a.sng" = .ok ["home", "a.sng"] from rfl,
      show crowded.tree.follow "/home/b.sng" = .ok ["home", "b.sng"] from rfl,
      show crowded.tree.follow "../srv/c.sng" = .ok ["srv", "c.sng"] from rfl,
      show crowded.tree.follow "d.sng" = .ok ["home", "d.sng"] from rfl]
  · simp [crowd, ha, hb, hc, hd,
      show crowded.tree.directories "a.sng" = [["home"]] from rfl,
      show crowded.tree.directories "/home/b.sng" = [[], [], ["home"]] from rfl,
      show crowded.tree.directories "../srv/c.sng" = [["home"], [], ["srv"]] from rfl,
      show crowded.tree.directories "d.sng" = [["home"]] from rfl]
  · exact fun path hpath image source created _ hsource _ => reportOn_crowded hsource hpath

theorem run_independent_crowded :
    crowd ≠ [] ∧ (∀ argument ∈ crowd, argument ∉ helpOptions) ∧ Independent crowded.tree crowd ∧
      ∃ (ending : String → Ending) (code : Nat) (last : FileTree),
        (∀ path ∈ crowd, Ends crowded.tree path (ending path)) ∧
        (crowd.map fun path => ((ending path).report path).status.code).max? = some code ∧
        Reflects crowded.tree ending crowd last ∧
        ∀ order, order.Perm crowd → ∃ after : FileTree,
          run "sngc" order crowded = .ok code
            { crowded with
              tree := after
              errors := crowded.errors ++
                String.join (order.map fun path => ((ending path).report path).text) } ∧
          ∀ place, after.entry? place = last.entry? place :=
  ⟨by decide, by decide, independent_crowded,
    run_independent "sngc" (by decide) (by decide) independent_crowded⟩

end

end ScriptedPng.CommandLine.Machine
