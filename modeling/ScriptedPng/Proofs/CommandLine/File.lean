import ScriptedPng.CommandLine.Machine
import ScriptedPng.Proofs.FileTree
import ScriptedPng.Proofs.Path
import ScriptedPng.Proofs.Step

/-!
# The compilation of a single file

On a machine, the source at a path is opened, the image beside it is created, and only then is the
source read. If all goes well the octets of the image are left there, otherwise nothing is. Besides
the file of the image nothing changes in the tree.

## Main definitions

* `CommandLine.imagePlace?`, `CommandLine.NoImage` — the places of the images of sources.
* `CommandLine.Machine.reportOn`, `CommandLine.Machine.imageOf` — what compiling a content comes to.
* `CommandLine.Machine.settle` — the tree after a compilation.

## Main statements

* `CommandLine.directories_image` — the path of an image goes through no directory of its own.
* `CommandLine.Machine.compileFile_reported` and its like — what a compilation comes to.
* `CommandLine.Machine.keeps_compileFile` — what it keeps of the tree.
-/

namespace ScriptedPng.CommandLine

open FileTree (Entry Keeps)

variable {tree : FileTree} {path image : String} {place : FileTree.Place}

/-! ## The place of the image -/

/-- The place of the image of the source at a path, if its path leads to one. -/
def imagePlace? (tree : FileTree) (path : String) : Option FileTree.Place :=
  (outputPath? path).bind fun image => (tree.follow image).toOption

theorem imagePlace?_eq_some : imagePlace? tree path = some place ↔
    ∃ image, outputPath? path = some image ∧ tree.follow image = .ok place := by
  rw [imagePlace?, Option.bind_eq_some_iff]
  refine exists_congr fun image => and_congr_right fun _ => ?_
  cases tree.follow image <;> simp [Except.toOption]

theorem imagePlace?_of_follow (himage : outputPath? path = some image)
    (hplace : tree.follow image = .ok place) : imagePlace? tree path = some place :=
  imagePlace?_eq_some.mpr ⟨image, himage, hplace⟩

/-- No image of the sources at the paths belongs to the place. -/
def NoImage (tree : FileTree) (paths : List String) (place : FileTree.Place) : Prop :=
  ∀ path ∈ paths, imagePlace? tree path ≠ some place

/-- While the directories stay, the image belongs to the same place. -/
theorem imagePlace?_of_keeps {kept : FileTree.Place → Prop} {after : FileTree}
    (h : Keeps kept tree after) :
    imagePlace? after path = some place ↔ imagePlace? tree path = some place := by
  simp only [imagePlace?_eq_some, h.follow_eq_ok]

/-- The path of an image goes through no directory that the path of its source does not go through.
-/
theorem directories_image (himage : outputPath? path = some image) :
    tree.directories image ⊆ tree.directories path := by
  simp only [outputPath?, Option.map_eq_some_iff] at himage
  obtain ⟨other, hother, rfl⟩ := himage
  obtain ⟨front, last, name, hsource, hsegments, hroot⟩ :=
    Path.segments_of_withSuffix? (by decide) (by decide) hother
  have hstart : tree.start other.text = tree.start path := by
    rw [FileTree.start, FileTree.start, hroot]
  have hfirst : tree.start path ∈ tree.directories path := by
    rw [FileTree.directories]
    cases hcut : Path.segments path with
    | nil => exact absurd hcut (Path.segments_ne_nil path)
    | cons segment segments => exact List.mem_cons_self
  have hnames : tree.stations (tree.start path) (front ++ [name]) ⊆ tree.directories path := by
    rw [FileTree.stations_concat front name last, ← hsource]
    exact FileTree.stations_filter_subset _
  rw [FileTree.directories, hstart, hsegments]
  exact List.Subset.trans (FileTree.stations_replicate_subset _ _)
    (List.cons_subset.mpr ⟨hfirst, hnames⟩)

namespace Machine

/-! ## What compiling a content comes to -/

variable {machine after : Machine} {source : FileTree.Place} {created : FileTree}
  {fault : FileTree.Fault} {content : Octets} {report : Report}

/-- The report on compiling a source with the given content, if it is reported on at all. -/
def reportOn [Diagnostic.Quotes] (name : String) (content : Octets) : Except Failure Report :=
  Report.ofResult name (compile (.ofOctets content) {}).1

/-- The octets that compiling a source with the given content writes. -/
def imageOf (content : Octets) : Octets :=
  (compile (.ofOctets content) {}).2.writer.sink.octets

/-- The tree in which an image has been created, once the content has been compiled. -/
def settle (created : FileTree) (image : String) (place : FileTree.Place) (content : Octets)
    (status : Status) : FileTree :=
  if status = .success then created.write place (imageOf content)
  else (created.write place (imageOf content)).remove image

theorem keeps_created (hcreate : tree.create image = .ok (place, created)) (octets : Octets) :
    Keeps (· ≠ place) tree (created.write place octets) := by
  obtain ⟨-, hentry, rfl⟩ := FileTree.create_eq_ok.mp hcreate
  have hempty : Keeps (· ≠ place) tree (tree.write place []) := .write (by simp) hentry _
  exact hempty.trans (.write (by simp) (mt (hempty.directory_iff place).mp hentry) _)

/-- Besides the image nothing changes. -/
theorem keeps_settle (hcreate : tree.create image = .ok (place, created)) (content : Octets)
    (status : Status) : Keeps (· ≠ place) tree (settle created image place content status) := by
  obtain ⟨hplace, hentry, -⟩ := FileTree.create_eq_ok.mp hcreate
  have hkeeps := keeps_created hcreate (imageOf content)
  unfold settle
  split
  · exact hkeeps
  · refine hkeeps.trans (.remove ?_ ?_)
    · intro other hne hother
      have hsame := hplace.symm.trans (hkeeps.follow_eq_ok.mp hother)
      exact hne (Except.ok.inj hsame).symm
    · intro other hother
      have hsame := hplace.symm.trans (hkeeps.follow_eq_ok.mp hother)
      obtain rfl := Except.ok.inj hsame
      exact mt (hkeeps.directory_iff place).mp hentry

/-- A successful compilation leaves the image, any other one leaves nothing at its place. -/
theorem entry?_settle (hcreate : tree.create image = .ok (place, created)) (content : Octets)
    (status : Status) : FileTree.entry? (settle created image place content status) place =
      if status = .success then some (.file (imageOf content)) else none := by
  obtain ⟨hplace, hentry, hcreated⟩ := FileTree.create_eq_ok.mp hcreate
  have hempty : Keeps (· ≠ place) tree created := hcreated ▸ .write (by simp) hentry _
  have hkeeps := keeps_created hcreate (imageOf content)
  unfold settle
  split
  · exact FileTree.entry?_write (mt (hempty.directory_iff place).mp hentry) _
  · exact FileTree.entry?_remove (hkeeps.follow_eq_ok.mpr hplace)
      (mt (hkeeps.directory_iff place).mp hentry)

/-- Without any content there are no pixels. -/
theorem compile_nothing (sink : Png.Sink) :
    (compile (.ofOctets []) sink).1 = .error (.diagnostic ⟨.noPixels, some .ending⟩) := by
  have hblocks : Compilation.blocks (.ofSource (.ofOctets []) sink) =
      .ok () (.ofSource (.ofOctets []) sink) := by
    rw [Compilation.blocks, forEach, foldEach_eq]
    rfl
  rw [Compilation.compile_eq, Compilation.run_eq, hblocks]
  rfl

theorem reportOn_nothing [Diagnostic.Quotes] (name : String) :
    reportOn name [] = .ok (.ofDiagnostic name ⟨.noPixels, some .ending⟩) := by
  rw [reportOn, compile_nothing]
  rfl

/-! ## The parts of a compilation -/

theorem openInput_ok (hpath : isUsable path) (hfind : machine.tree.find path = .ok source) :
    openInput path machine = .ok (.ok (.file source)) machine := by
  simp only [openInput, hpath, hfind]
  rfl

theorem openInput_error (hpath : isUsable path) (hfind : machine.tree.find path = .error fault) :
    openInput path machine = .ok (.error fault.message) machine := by
  simp only [openInput, hpath, hfind]
  rfl

theorem openInput_unusable (hpath : ¬ isUsable path) :
    openInput path machine = .error (.unusable path) machine := by
  simp [openInput, hpath]

theorem createOutput_ok (hcreate : machine.tree.create image = .ok (place, created)) :
    createOutput image machine = .ok (.ok (.file place)) { machine with tree := created } := by
  simp only [createOutput, hcreate]

theorem createOutput_error (hcreate : machine.tree.create image = .error fault) :
    createOutput image machine = .ok (.error fault.message) machine := by
  simp only [createOutput, hcreate]

variable [Diagnostic.Quotes]

/-- The image takes the place of the entry, whatever is reported of the compilation. -/
theorem compileTo_eq (machine : Machine) (name : String) :
    (compileTo name (.file source : Stream) (.file place : Stream) : Action Status) machine =
      let written := { machine with
        tree := machine.tree.write place (imageOf (machine.tree.read source)) }
      match reportOn name (machine.tree.read source) with
      | .ok report =>
        .ok report.status { written with errors := machine.errors ++ report.text }
      | .error failure => .error (.failure failure) written := by
  unfold compileTo
  refine (bind_of_ok rfl).trans ((bind_of_ok rfl).trans ?_)
  unfold reportOn
  cases Report.ofResult name (compile (.ofOctets (machine.tree.read source)) {}).1 <;> rfl

theorem compileTo_ok (machine : Machine) {name : String}
    (h : reportOn name (machine.tree.read source) = .ok report) :
    (compileTo name (.file source : Stream) (.file place : Stream) : Action Status) machine =
      .ok report.status
        { machine with
          tree := machine.tree.write place (imageOf (machine.tree.read source))
          errors := machine.errors ++ report.text } := by
  rw [compileTo_eq, h]

theorem compileTo_error (machine : Machine) {name : String} {failure : Failure}
    (h : reportOn name (machine.tree.read source) = .error failure) :
    (compileTo name (.file source : Stream) (.file place : Stream) : Action Status) machine =
      .error (.failure failure)
        { machine with
          tree := machine.tree.write place (imageOf (machine.tree.read source)) } := by
  rw [compileTo_eq, h]

/-! ## The compilation -/

theorem compileFile_nameless (himage : outputPath? path = none) :
    (compileFile path : Action Status) machine = .error (.nameless path) machine := by
  simp only [compileFile, himage]
  rfl

theorem compileFile_unusable (himage : outputPath? path = some image) (hpath : ¬ isUsable path) :
    (compileFile path : Action Status) machine = .error (.unusable path) machine := by
  simp only [compileFile, himage]
  exact bind_of_error (openInput_unusable hpath)

theorem compileFile_notOpened (himage : outputPath? path = some image) (hpath : isUsable path)
    (hfind : machine.tree.find path = .error fault) :
    (compileFile path : Action Status) machine = .ok .badSource
      { machine with
        errors := machine.errors ++ s!"{path}: can't open: {fault.message}\n" } := by
  simp only [compileFile, himage]
  exact bind_of_ok (openInput_error hpath hfind)

theorem compileFile_notCreated (himage : outputPath? path = some image) (hpath : isUsable path)
    (hfind : machine.tree.find path = .ok source)
    (hcreate : machine.tree.create image = .error fault) :
    (compileFile path : Action Status) machine = .ok .badImage
      { machine with
        errors := machine.errors ++ s!"{image}: can't create: {fault.message}\n" } := by
  simp only [compileFile, himage]
  refine (bind_of_ok (openInput_ok hpath hfind)).trans ?_
  exact bind_of_ok (createOutput_error hcreate)

/-- The source is read after the image has been created. -/
theorem compileFile_reported (himage : outputPath? path = some image) (hpath : isUsable path)
    (hfind : machine.tree.find path = .ok source)
    (hcreate : machine.tree.create image = .ok (place, created))
    (hreport : reportOn path (created.read source) = .ok report) :
    (compileFile path : Action Status) machine = .ok report.status
      { machine with
        tree := settle created image place (created.read source) report.status
        errors := machine.errors ++ report.text } := by
  simp only [compileFile, himage]
  refine (bind_of_ok (openInput_ok hpath hfind)).trans ?_
  refine (bind_of_ok (createOutput_ok hcreate)).trans ?_
  refine (bind_of_ok (compileTo_ok { machine with tree := created } hreport)).trans ?_
  by_cases hstatus : report.status = .success
  · simp only [settle, hstatus, ne_eq, not_true_eq_false, ↓reduceIte]
    rfl
  · simp only [settle, hstatus, ne_eq, not_false_eq_true, ↓reduceIte]
    rfl

theorem compileFile_escaped {failure : Failure} (himage : outputPath? path = some image)
    (hpath : isUsable path) (hfind : machine.tree.find path = .ok source)
    (hcreate : machine.tree.create image = .ok (place, created))
    (hreport : reportOn path (created.read source) = .error failure) :
    (compileFile path : Action Status) machine = .error (.failure failure)
      { machine with tree := created.write place (imageOf (created.read source)) } := by
  simp only [compileFile, himage]
  refine (bind_of_ok (openInput_ok hpath hfind)).trans ?_
  refine (bind_of_ok (createOutput_ok hcreate)).trans ?_
  exact bind_of_error (compileTo_error { machine with tree := created } hreport)

/-- Whatever becomes of a compilation, nothing but the file of the image changes. -/
theorem keeps_compileFile (path : String) (machine : Machine) :
    Outcome
      (fun _ after => Keeps (imagePlace? machine.tree path ≠ some ·) machine.tree after.tree)
      (fun _ after => Keeps (imagePlace? machine.tree path ≠ some ·) machine.tree after.tree)
      ((compileFile path : Action Status) machine) := by
  cases himage : outputPath? path with
  | none =>
    rw [compileFile_nameless himage]
    exact .refl
  | some image =>
    by_cases hpath : isUsable path
    · cases hfind : machine.tree.find path with
      | error fault =>
        rw [compileFile_notOpened himage hpath hfind]
        exact .refl
      | ok source =>
        cases hcreate : machine.tree.create image with
        | error fault =>
          rw [compileFile_notCreated himage hpath hfind hcreate]
          exact .refl
        | ok result =>
          obtain ⟨place, created⟩ := result
          have hplace : imagePlace? machine.tree path = some place :=
            imagePlace?_of_follow himage (FileTree.create_eq_ok.mp hcreate).1
          have hother (other : FileTree.Place) (h : imagePlace? machine.tree path ≠ some other) :
              other ≠ place := fun heq => h (heq ▸ hplace)
          cases hreport : reportOn path (created.read source) with
          | ok report =>
            rw [compileFile_reported himage hpath hfind hcreate hreport]
            exact (keeps_settle hcreate _ _).mono hother
          | error failure =>
            rw [compileFile_escaped himage hpath hfind hcreate hreport]
            exact (keeps_created hcreate _).mono hother
    · rw [compileFile_unusable himage hpath]
      exact .refl

/-! ## Runs -/

variable {program : String} {arguments : List String} {code : Nat}

/-- A run that is asked for the usage leaves the tree as it is. -/
theorem tree_of_run (hhelp : ∃ argument ∈ arguments, argument ∈ helpOptions)
    (hrun : run program arguments machine = .ok code after) : after.tree = machine.tree := by
  have hany : arguments.any (· ∈ helpOptions) = true := by simpa using hhelp
  simp only [run, CommandLine.run, hany, ↓reduceIte] at hrun
  cases hrun
  rfl

/-- A run that is not asked for the usage compiles the files. -/
theorem run_eq (hsome : arguments ≠ []) (hhelp : ∀ argument ∈ arguments, argument ∉ helpOptions) :
    run program arguments machine = (compileFiles arguments : Action Nat) machine := by
  have hany : arguments.any (· ∈ helpOptions) = false := by simpa using hhelp
  simp only [run, CommandLine.run, hany, Bool.false_eq_true, hsome, ↓reduceIte]

/-- The gravest status of the files counts. -/
theorem run_eq_ok (program : String) {statuses : List Status} (hsome : arguments ≠ [])
    (hhelp : ∀ argument ∈ arguments, argument ∉ helpOptions)
    (hfiles : (arguments.mapM compileFile : Action (List Status)) machine = .ok statuses after) :
    run program arguments machine = .ok ((statuses.map Status.code).foldl max 0) after := by
  rw [run_eq hsome hhelp, compileFiles, bind_of_ok hfiles]
  rfl

end Machine

end ScriptedPng.CommandLine
