import ScriptedPng.Proofs.BlockOrder
import ScriptedPng.Proofs.Png.Progress
import ScriptedPng.Proofs.Reading

/-!
# Runs

While the blocks of a source are compiled, nothing is written before the first pixels come; then the
datastream is begun, and the image stays as it is. A run breaks off in reading, at a guard, or in
writing, and what has been written then is the beginning of a datastream.

## Main definitions

* `Block.Described` — what is known of the image after some blocks.
* `Compilation.Running` — what is known of a compilation after some blocks.
* `Compilation.Fate` — how a run breaks off.
* `Compilation.Complete` — what a run comes to that does not.

## Main statements

* `Compilation.outcome_block_running` — a block keeps the compilation running, or breaks it off.
* `Compilation.outcome_run_complete` — a run is complete, or has one of these fates.
-/

namespace ScriptedPng

open Block Diagnostic Png

namespace Block

/-! ## Images after blocks -/

/-- What is known of an image after blocks with the given keywords. -/
structure Described (names : List Keyword) (image : Image) : Prop where
  bounded : image.Bounded
  sized : .header ∈ names → image.height ≠ 0 ∧ image.width ≠ 0
  given : image.given.palette = true ↔ .palette ∈ names

/-- Blocks other than headers leave the size of the image alone. -/
theorem Change.size_eq {keyword : Keyword} {before after : Image} (h : Change keyword before after)
    (hkeyword : keyword ≠ .header) : after.height = before.height ∧ after.width = before.width := by
  cases h <;> first | exact ⟨rfl, rfl⟩ | contradiction

/-- The reading of the blocks that do nothing else. -/
def reader? : Keyword → Option (BodyM Unit)
  | .header => some header
  | .palette => some palette
  | .chromaticities => some chromaticities
  | .gamma => some gamma
  | .intent => some intent
  | _ => none

variable {names : List Keyword} {keyword : Keyword} {action : BodyM Unit} {color : ColorFlags}

theorem Keyword.oneLine_name (keyword : Keyword) : Text.OneLine keyword.name := by
  cases keyword <;> decide

theorem Progress.exists_of_firstOf {conditions : List (Bool × Cause)} {cause : Cause}
    (h : Progress.firstOf conditions = .error cause) : ∃ c ∈ conditions, c.2 = cause := by
  fun_induction Progress.firstOf conditions with
  | case1 => cases h
  | case2 cause rest =>
    cases h
    exact ⟨_, List.mem_cons_self, rfl⟩
  | case3 cause rest ih =>
    obtain ⟨c, hmem, hc⟩ := ih h
    exact ⟨c, List.mem_cons_of_mem _ hmem, hc⟩

theorem Progress.ofReading_of_mem_faults {progress : Progress} {color : ColorFlags}
    {keyword : Keyword} {c : Bool × Cause} {fault : Option String}
    (h : c ∈ progress.faults color keyword) : OfReading fault ⟨c.2, none⟩ := by
  have hname := Keyword.oneLine_name keyword
  simp only [Progress.faults] at h
  split at h <;> simp only [List.mem_cons, List.not_mem_nil, or_false] at h
  · subst h
    exact ⟨rfl, by simp [Cause.texts]⟩
  · rcases h with rfl | rfl | rfl | rfl <;>
      exact ⟨rfl, by simp [Cause.texts, Keyword.oneLine_name]⟩
  · rcases h with rfl | rfl <;> exact ⟨rfl, by simp [Cause.texts]⟩
  · subst h
    exact ⟨rfl, by simp [Cause.texts]⟩
  · rcases h with rfl | rfl <;> exact ⟨rfl, by simp [Cause.texts, hname]⟩

/-- The guards give diagnostics that are not about the image to be written. -/
theorem Progress.ofReading_of_check {progress : Progress} {color : ColorFlags} {keyword : Keyword}
    {cause : Cause} {fault : Option String} (h : progress.check color keyword = .error cause) :
    OfReading fault ⟨cause, none⟩ := by
  have hname := Keyword.oneLine_name keyword
  obtain ⟨c, hmem, rfl⟩ := Progress.exists_of_firstOf h
  rcases List.mem_append.1 hmem with hmem | hmem
  · simp only [List.mem_cons, List.not_mem_nil, or_false] at hmem
    rcases hmem with rfl | rfl | rfl <;> exact ⟨rfl, by simp [Cause.texts, hname]⟩
  · exact Progress.ofReading_of_mem_faults hmem

theorem Progress.ofReading_of_checkEnd {progress : Progress} {color : ColorFlags} {cause : Cause}
    {fault : Option String} (h : progress.checkEnd color = .error cause) :
    OfReading fault ⟨cause, none⟩ := by
  obtain ⟨c, hmem, rfl⟩ := Progress.exists_of_firstOf h
  simp only [List.mem_cons, List.not_mem_nil, or_false] at hmem
  rcases hmem with rfl | rfl <;> exact ⟨rfl, by simp [Cause.texts]⟩

theorem body_of_reader (h : reader? keyword = some action) :
    Compilation.body keyword = Compilation.read action := by
  cases keyword <;> cases h <;> rfl

theorem reads_reader {fault : Option String} (h : reader? keyword = some action) :
    Reads fault (fun _ => True) action := by
  cases keyword <;> cases h
  · exact reads_header
  · exact reads_palette
  · exact reads_chromaticities
  · exact reads_gamma
  · exact reads_intent

theorem keeps_reader {invariant : Image → Prop} (h : reader? keyword = some action)
    (hclosed : Closed keyword invariant) : Keeps invariant action := by
  cases keyword <;> cases h
  · exact keeps_header hclosed
  · exact keeps_palette hclosed
  · exact keeps_chromaticities hclosed
  · exact keeps_gamma hclosed
  · exact keeps_intent hclosed

/-- Blocks that are read give no pixels, and are not allowed once there are some. -/
theorem not_mem_of_reader (h : reader? keyword = some action)
    (hallowed : Progress.Allowed names color keyword) :
    (.data ∉ names ∧ .pixels ∉ names) ∧ keyword ≠ .data ∧ keyword ≠ .pixels := by
  have hdata : keyword ≠ .data := by
    rintro rfl
    cases h
  have hpixels : keyword ≠ .pixels := by
    rintro rfl
    cases h
  refine ⟨?_, hdata, hpixels⟩
  rcases Progress.allowed_iff.1 hallowed with ⟨-, rfl⟩ | ⟨-, -, -, hdata, hpixels, -⟩ |
    ⟨rfl, -⟩ | ⟨rfl, -⟩ | ⟨-, -, -, -, hdata, hpixels⟩
  · simp
  · exact ⟨hdata, hpixels⟩
  · contradiction
  · contradiction
  · exact ⟨hdata, hpixels⟩

/-- A block that is read leaves an image of which the more is known. -/
theorem outcome_reader (h : reader? keyword = some action)
    (hallowed : Progress.Allowed names color keyword) {body : Body}
    (hdescribed : Described names body.image) :
    Outcome (fun _ after => Described (names ++ [keyword]) after.image) (fun _ _ => True)
      (action body) := by
  obtain ⟨hbounded, hsized, hgiven⟩ := hdescribed
  by_cases hheader : keyword = .header
  · subst hheader
    obtain rfl : names = [] := hallowed
    cases h
    have hclosed : Closed .header fun image =>
        image.Bounded ∧ image.given.palette = body.image.given.palette :=
      fun _ _ hchange h => ⟨hchange.bounded h.1, (hchange.given_palette_eq (by decide)).trans h.2⟩
    refine ((keeps_header hclosed body ⟨hbounded, rfl⟩).and (sized_header body)).mono ?_
      fun _ _ _ => trivial
    rintro _ after ⟨⟨-, hbounded, hsame⟩, hsize⟩
    exact ⟨hbounded, fun _ => hsize, by rw [hsame, hgiven]; simp⟩
  have hheaders := hallowed.header_mem hheader
  by_cases hpalette : keyword = .palette
  · subst hpalette
    cases h
    have hclosed : Closed .palette fun image =>
        image.Bounded ∧ image.height = body.image.height ∧ image.width = body.image.width :=
      fun _ _ hchange h =>
        have hsize := hchange.size_eq (by decide)
        ⟨hchange.bounded h.1, hsize.1.trans h.2.1, hsize.2.trans h.2.2⟩
    refine ((keeps_palette hclosed body ⟨hbounded, rfl, rfl⟩).and (given_palette body)).mono ?_
      fun _ _ _ => trivial
    rintro _ after ⟨⟨-, hbounded, hheight, hwidth⟩, hafter⟩
    refine ⟨hbounded, fun _ => ?_, by simp [hafter]⟩
    rw [hheight, hwidth]
    exact hsized hheaders
  -- The other blocks change nothing of what is known.
  have hclosed : Closed keyword (Described names) := fun before after hchange h => by
    have hsize := hchange.size_eq hheader
    refine ⟨hchange.bounded h.bounded, fun hmem => ?_, ?_⟩
    · rw [hsize.1, hsize.2]
      exact h.sized hmem
    · rw [hchange.given_palette_eq hpalette]
      exact h.given
  refine (keeps_reader h hclosed body ⟨hbounded, hsized, hgiven⟩).mono ?_ fun _ _ _ => trivial
  rintro _ after ⟨-, hafter⟩
  refine ⟨hafter.bounded, fun _ => hafter.sized hheaders, hafter.given.trans ?_⟩
  simp [Ne.symm hpalette]

end Block

namespace Compilation

open Writer

-- Statements about writing a chunk are not to be unfolded into running the writer.
attribute [local irreducible] Writer.writeChunk

/-! ## Compilations after blocks -/

/-- What is known of the image, the lexer and the writer of a compilation after blocks with the
given keywords: nothing is written before the first pixels. -/
structure Running (sink : Sink) (fault : Option String) (names : List Keyword)
    (compilation : Compilation) : Prop where
  described : Described names compilation.image
  clean : compilation.lexer.Clean fault
  waiting : .data ∉ names → .pixels ∉ names → compilation.writer = .ofSink sink
  begun : .data ∈ names ∨ .pixels ∈ names → ∃ header data, data ≠ [] ∧
    Begun sink compilation.image header data compilation.writer

/-- Writing has failed: it has broken off, or flushing has failed when all had been written. -/
inductive WriteFault (sink : Sink) : Failure → Compilation → Prop
  | broken {failure : Failure} {compilation : Compilation}
      (h : Broken sink compilation.image failure compilation.writer) :
      WriteFault sink failure compilation
  | last {reason : String} {compilation : Compilation} {header : Header} {data : List Chunk}
      {before : Writer} (h : reason ∈ sink.reasons)
      (hend : compilation.progress.checkEnd compilation.image.color = .ok ()) (hdata : data ≠ [])
      (hbegun : Begun sink compilation.image header data before)
      (hadds : before.Adds compilation.writer [lastChunk]) :
      WriteFault sink (.ofCause (.writeFailed reason)) compilation

/-- How a run breaks off: with a diagnostic of reading, or in writing. -/
inductive Fate (sink : Sink) (fault : Option String) : Failure → Compilation → Prop
  | read {diagnostic : Diagnostic} {compilation : Compilation} (h : OfReading fault diagnostic)
      (hidle : Idle sink compilation.image compilation.writer) :
      Fate sink fault (.diagnostic diagnostic) compilation
  | write {failure : Failure} {compilation : Compilation}
      (h : WriteFault sink failure compilation) :
      Fate sink fault failure compilation

variable {sink : Sink} {fault : Option String} {names : List Keyword} {compilation : Compilation}

theorem Running.idle (h : Running sink fault names compilation) :
    Idle sink compilation.image compilation.writer := by
  by_cases hdata : .data ∈ names
  · obtain ⟨header, data, -, hbegun⟩ := h.begun (.inl hdata)
    exact .inr ⟨header, data, hbegun⟩
  · by_cases hpixels : .pixels ∈ names
    · obtain ⟨header, data, -, hbegun⟩ := h.begun (.inr hpixels)
      exact .inr ⟨header, data, hbegun⟩
    · exact .inl (h.waiting hdata hpixels)

theorem reads_openBody : Reads fault (fun _ => True) openBody := by
  refine .bind (reads_read Lexer.reads_next) ?_
  intro found hfound
  cases found with
  | none => exact reads_fail rfl rfl
  | some token =>
    exact .ite (fun _ => .pure trivial) fun _ => reads_failAt rfl (by simp [Cause.texts])

/-- What is known of a compilation after the body of a further block, before it is counted. -/
def Ran (sink : Sink) (fault : Option String) (names : List Keyword) (keyword : Keyword)
    (after : Compilation) : Prop :=
  Running sink fault (names ++ [keyword])
    { after with progress := after.progress.add keyword }

/-- A block that is read, if it is allowed. -/
theorem outcome_read_running (h : Running sink fault names compilation) {keyword : Keyword}
    {action : BodyM Unit} (haction : reader? keyword = some action) {color : ColorFlags}
    (hallowed : Progress.Allowed names color keyword) :
    Outcome (fun _ after => Ran sink fault names keyword after) (Fate sink fault)
      (body keyword compilation) := by
  obtain ⟨⟨hdata, hpixels⟩, hnotData, hnotPixels⟩ := not_mem_of_reader haction hallowed
  have hwaiting := h.waiting hdata hpixels
  rw [body_of_reader haction]
  refine (outcome_read ((outcome_reader haction hallowed h.described).and
    (reads_reader haction compilation.toBody h.clean))).mono ?_ ?_
  · rintro _ after ⟨⟨hdescribed, -, hclean⟩, -, hwriter⟩
    refine ⟨hdescribed, hclean, fun _ _ => hwriter.trans hwaiting, fun hmem => ?_⟩
    simp [hdata, hpixels, Ne.symm hnotData, Ne.symm hnotPixels] at hmem
  · rintro _ after ⟨⟨diagnostic, rfl, -, hdiagnostic, -⟩, -, hwriter⟩
    exact .read hdiagnostic (.inl (hwriter.trans hwaiting))

/-- With the first pixels the datastream is begun. -/
theorem outcome_startPixels (h : Running sink fault names compilation)
    (hprogress : compilation.progress.Matches names) (hheader : .header ∈ names) :
    Outcome (fun _ after => after.toBody = compilation.toBody ∧
        ∃ header data, Begun sink compilation.image header data after.writer)
      (Fate sink fault) (startPixels compilation) := by
  rw [startPixels_eq]
  refine .ite (fun hpixels => .pure ⟨rfl, ?_⟩) fun hpixels => ?_
  · rw [hprogress.hasPixels_eq] at hpixels
    obtain ⟨header, data, -, hbegun⟩ := h.begun (by simpa using hpixels)
    exact ⟨header, data, hbegun⟩
  · rw [hprogress.hasPixels_eq] at hpixels
    obtain ⟨hdata, hpixels⟩ : .data ∉ names ∧ .pixels ∉ names := by simpa using hpixels
    obtain ⟨hheight, hwidth⟩ := h.described.sized hheader
    have hinfo : Outcome (fun _ after => ∃ header, Begun sink compilation.image header [] after)
        (Broken sink compilation.image)
        (Writer.writeInfo compilation.image compilation.writer) := by
      rw [h.waiting hdata hpixels]
      exact Writer.outcome_writeInfo h.described.bounded hheight hwidth
    refine (outcome_write hinfo).mono ?_ ?_
    · rintro _ after ⟨⟨header, hbegun⟩, -, hbody⟩
      exact ⟨hbody, header, [], hbegun⟩
    · rintro failure after ⟨hbroken, -, hbody⟩
      refine .write (.broken ?_)
      have himage : after.image = compilation.image := congrArg Body.image hbody
      rwa [himage]

/-- Reading a data segment leaves the image and what has been written as they are. -/
theorem outcome_collect {alphabet : Segment.Alphabet} (hclean : compilation.lexer.Clean fault)
    (hidle : Idle sink compilation.image compilation.writer) :
    Outcome (fun _ after => after.lexer.Clean fault ∧ after.image = compilation.image ∧
        after.writer = compilation.writer)
      (Fate sink fault) (read (Block.read (Lexer.collect alphabet)) compilation) := by
  have hreads := reads_read (Lexer.reads_collect alphabet) compilation.toBody hclean
  have hsame : Keeps (· = compilation.image) (Block.read (Lexer.collect alphabet)) := keeps_read _
  have hkeeps := hsame compilation.toBody rfl
  refine (outcome_read (hreads.and hkeeps)).mono ?_ ?_
  · rintro octets after ⟨⟨⟨-, hclean⟩, -, himage⟩, -, hwriter⟩
    exact ⟨hclean, himage, hwriter⟩
  · rintro _ after ⟨⟨diagnostic, rfl, ⟨hdiagnostic, -⟩, -, himage⟩, -, hwriter⟩
    have himage : after.image = compilation.image := himage
    exact .read hdiagnostic (by rwa [himage, hwriter])

/-- Writing pixels after those before. -/
theorem outcome_write_running (h : Running sink fault names compilation) {keyword : Keyword}
    (hkeyword : keyword = .data ∨ keyword = .pixels) {state : Compilation} {header : Header}
    {data : List Chunk} (hclean : state.lexer.Clean fault)
    (himage : state.image = compilation.image) {action : WriterM Unit}
    (haction : Outcome (fun _ after => ∃ more, more ≠ [] ∧
        Begun sink compilation.image header (data ++ more) after)
      (Broken sink compilation.image) (action state.writer)) :
    Outcome (fun _ after => Ran sink fault names keyword after) (Fate sink fault)
      (write action state) := by
  refine (outcome_write haction).mono ?_ ?_
  · rintro _ after ⟨⟨more, hmore, hbegun⟩, -, hbody⟩
    have hafter : after.image = compilation.image := (congrArg Body.image hbody).trans himage
    have hlexer : after.lexer = state.lexer := congrArg Body.lexer hbody
    obtain ⟨hbounded, hsized, hgiven⟩ := h.described
    refine ⟨?_, show after.lexer.Clean fault from hlexer ▸ hclean, ?_, fun _ => ?_⟩
    · rw [show ({ after with progress := _ } : Compilation).image = compilation.image from hafter]
      refine ⟨hbounded, fun hmem => hsized ?_, hgiven.trans ?_⟩
      · rcases hkeyword with rfl | rfl <;> simpa using hmem
      · rcases hkeyword with rfl | rfl <;> simp
    · intro hdata hpixels
      rcases hkeyword with rfl | rfl
      · simp at hdata
      · simp at hpixels
    · rw [show ({ after with progress := _ } : Compilation).image = compilation.image from hafter]
      exact ⟨header, data ++ more, by simp [hmore], hbegun⟩
  · rintro failure after ⟨hbroken, -, hbody⟩
    have hafter : after.image = compilation.image := (congrArg Body.image hbody).trans himage
    exact .write (.broken (by rwa [hafter]))

/-- A block of pixels starts the pixels, reads a data segment and goes on with its octets. -/
theorem outcome_segment (h : Running sink fault names compilation)
    (hprogress : compilation.progress.Matches names) (hheader : .header ∈ names)
    {alphabet : Segment.Alphabet} {post : Unit → Compilation → Prop}
    {handle : Octets → CompileM Unit}
    (hhandle : ∀ header data octets (state : Compilation), state.lexer.Clean fault →
      state.image = compilation.image → Begun sink compilation.image header data state.writer →
      Outcome post (Fate sink fault) (handle octets state)) :
    Outcome post (Fate sink fault)
      ((do startPixels; let octets ← read (Block.read (Lexer.collect alphabet)); handle octets)
        compilation) := by
  refine .bind (outcome_startPixels h hprogress hheader) ?_
  intro _ started hstarted
  obtain ⟨hbody, header, data, hbegun⟩ := hstarted
  have himage : started.image = compilation.image := congrArg Body.image hbody
  have hlexer : started.lexer = compilation.lexer := congrArg Body.lexer hbody
  refine .bind (outcome_collect (hlexer ▸ h.clean) (himage ▸ .inr ⟨header, data, hbegun⟩))
    fun octets state hstate => ?_
  obtain ⟨hclean, hsame, hwriter⟩ := hstate
  rw [← hwriter] at hbegun
  exact hhandle header data octets state hclean (hsame.trans himage) hbegun

theorem outcome_data_running (h : Running sink fault names compilation)
    (hprogress : compilation.progress.Matches names) (hheader : .header ∈ names) :
    Outcome (fun _ after => Ran sink fault names .data after) (Fate sink fault)
      (data compilation) :=
  outcome_segment h hprogress hheader fun _ _ octets _ hclean himage hbegun =>
    outcome_write_running h (.inl rfl) hclean himage (Writer.outcome_writeData hbegun octets)

theorem outcome_pixels_running (h : Running sink fault names compilation)
    (hprogress : compilation.progress.Matches names) (hheader : .header ∈ names) :
    Outcome (fun _ after => Ran sink fault names .pixels after) (Fate sink fault)
      (pixels compilation) := by
  refine outcome_segment h hprogress hheader ?_
  intro header data octets state hclean himage hbegun
  refine .ite (fun hlength => ?_) fun hlength => ?_
  · exact outcome_write_running h (.inr rfl) hclean himage
      (Writer.outcome_writeImage hbegun hlength)
  · exact .read ⟨rfl, by simp [Cause.texts]⟩ (.inr ⟨header, data, himage ▸ hbegun⟩)

/-! ## Blocks -/

/-- Reading between blocks leaves what is known. -/
theorem Running.reading (h : Running sink fault names compilation) {body : Body}
    (himage : body.image = compilation.image) (hclean : body.lexer.Clean fault) :
    Running sink fault names { compilation with toBody := body } where
  described := himage ▸ h.described
  clean := hclean
  waiting := h.waiting
  begun := himage ▸ h.begun

/-- A block keeps the compilation running, or breaks it off. -/
theorem outcome_block_running (h : Running sink fault names compilation)
    (hprogress : compilation.progress.Matches names) {token : Token} (htoken : token.Plain) :
    Outcome (fun _ after => ∃ keyword, keyword? token = some keyword ∧
        Running sink fault (names ++ [keyword]) after)
      (Fate sink fault) (block token compilation) := by
  have hsame : Keeps (· = compilation.image) openBody := keeps_openBody
  have hopen := (hsame compilation.toBody rfl).and (reads_openBody compilation.toBody h.clean)
  have hidle {body : Body} (himage : body.image = compilation.image) :
      Idle sink body.image compilation.writer := himage ▸ h.idle
  refine outcome_block (fun keyword => Running sink fault (names ++ [keyword])) ?_
    (hopen.mono (fun _ _ h => And.intro h.1.2 h.2.2) ?_) ?_ ?_
  · exact fun _ => .read ⟨rfl, fun text hmem => .inl (List.mem_singleton.1 hmem ▸ htoken)⟩ h.idle
  · rintro diagnostic body ⟨⟨-, himage⟩, hdiagnostic, -⟩
    exact .read hdiagnostic (hidle himage)
  · rintro keyword body cause - ⟨himage, -⟩ hcheck
    exact .read (Progress.ofReading_of_check hcheck) (hidle himage)
  · rintro keyword body - ⟨himage, hclean⟩ hcheck
    have hallowed := (hprogress.check_eq_ok_iff_allowed _ _).1 hcheck
    have hrunning := h.reading himage hclean
    cases keyword with
    | header => exact outcome_read_running hrunning rfl hallowed
    | palette => exact outcome_read_running hrunning rfl hallowed
    | chromaticities => exact outcome_read_running hrunning rfl hallowed
    | gamma => exact outcome_read_running hrunning rfl hallowed
    | intent => exact outcome_read_running hrunning rfl hallowed
    | data => exact outcome_data_running hrunning hprogress (hallowed.header_mem (by decide))
    | pixels => exact outcome_pixels_running hrunning hprogress (hallowed.header_mem (by decide))
    | _ => exact .throw (.read ⟨rfl, by simp [Cause.texts, Keyword.oneLine_name]⟩ (hidle himage))

/-- What is known of a compilation between blocks. -/
def Going (sink : Sink) (fault : Option String) (compilation : Compilation) : Prop :=
  ∃ names indexed, Ordered names indexed compilation ∧ Running sink fault names compilation

theorem outcome_next (h : Going sink fault compilation) :
    Outcome (fun found after => Lexer.Found found ∧ Going sink fault after) (Fate sink fault)
      (next compilation) := by
  obtain ⟨names, indexed, hordered, hrunning⟩ := h
  have hsame : Keeps (· = compilation.image) (Block.read Lexer.next) := keeps_read _
  have hreads := reads_read Lexer.reads_next compilation.toBody hrunning.clean
  refine (outcome_read (hreads.and (hsame compilation.toBody rfl))).mono ?_ ?_
  · rintro found ⟨body, progress, writer⟩ ⟨⟨⟨hfound, hclean⟩, -, himage⟩, hprogress, hwriter⟩
    dsimp only at hprogress hwriter
    subst hprogress hwriter
    exact ⟨hfound, names, indexed, ⟨hordered.progress, hordered.isStart,
      show _ → body.image.color.palette = _ from himage ▸ hordered.color⟩,
      hrunning.reading himage hclean⟩
  · rintro _ ⟨body, progress, writer⟩ ⟨⟨diagnostic, rfl, ⟨hdiagnostic, -⟩, -, himage⟩, -, hwriter⟩
    dsimp only at hwriter
    subst hwriter
    exact .read hdiagnostic (show Idle sink body.image _ from himage ▸ hrunning.idle)

/-- All blocks of a source are compiled, or the run breaks off. -/
theorem outcome_blocks_going (h : Going sink fault compilation) :
    Outcome (fun _ after => Going sink fault after) (Fate sink fault) (blocks compilation) := by
  refine Outcome.foldEach (fun _ => Going sink fault)
    (fun _ token state => token.Plain ∧ Going sink fault state) h ?_ ?_
  · intro _ state hstate
    refine (outcome_next hstate).mono_post ?_
    rintro found after ⟨hfound, hafter⟩
    cases found with
    | none => exact hafter
    | some token => exact ⟨hfound token rfl, hafter⟩
  · rintro _ token state ⟨htoken, names, indexed, hordered, hrunning⟩
    have hblock := outcome_block_running hrunning hordered.progress htoken
    refine (hblock.and (outcome_block_ordered hordered token)).mono ?_ fun _ _ h => h.1
    rintro _ after ⟨⟨keyword, hkeyword, hafter⟩, found, hfound, hordered⟩
    obtain rfl : keyword = found := Option.some.inj (hkeyword.symm.trans hfound)
    exact ⟨_, _, hordered, hafter⟩

/-! ## Runs -/

/-- What a run comes to that does not break off: a palette is given just if the image has one, and
the whole datastream has been written. -/
structure Complete (sink : Sink) (compilation : Compilation) : Prop where
  given : compilation.image.given.palette = compilation.image.color.palette
  checked : compilation.progress.checkEnd compilation.image.color = .ok ()
  written : ∃ header data before, data ≠ [] ∧
    Begun sink compilation.image header data before ∧ before.Adds compilation.writer [lastChunk]

theorem Going.idle (h : Going sink fault compilation) :
    Idle sink compilation.image compilation.writer := by
  obtain ⟨names, indexed, -, hrunning⟩ := h
  exact hrunning.idle

/-- If the check at the end passes, there are pixels, and a palette just if the image has one. -/
theorem Going.checked (h : Going sink fault compilation)
    (hend : compilation.progress.checkEnd compilation.image.color = .ok ()) :
    compilation.image.given.palette = compilation.image.color.palette ∧
      ∃ header data, data ≠ [] ∧ Begun sink compilation.image header data compilation.writer := by
  obtain ⟨names, indexed, ⟨hprogress, hstart, hcolor⟩, hrunning⟩ := h
  obtain ⟨hpalette, hpixels⟩ := (hprogress.checkEnd_eq_ok_iff _).1 hend
  have hne : names ≠ [] := by
    rcases hpixels with hmem | hmem <;> exact List.ne_nil_of_mem hmem
  refine ⟨?_, hrunning.begun hpixels⟩
  rw [Bool.eq_iff_iff, hrunning.described.given]
  refine ⟨fun hmem => ?_, hpalette⟩
  rw [hcolor hne, hstart.indexed_of_palette_mem hmem]

/-- After the check at the end something is written that completes the datastream. -/
theorem outcome_checked (h : Going sink fault compilation) {action : WriterM Unit}
    (haction : ∀ header data, Begun sink compilation.image header data compilation.writer →
      Outcome (fun _ after => ∃ before, Begun sink compilation.image header data before ∧
          before.Adds after [lastChunk])
        (fun failure after => ∃ reason ∈ sink.reasons, failure = .ofCause (.writeFailed reason) ∧
          (Begun sink compilation.image header data after ∨
            ∃ before, Begun sink compilation.image header data before ∧
              before.Adds after [lastChunk]))
        (action compilation.writer)) :
    Outcome (fun _ after => Complete sink after) (Fate sink fault)
      ((do verify (compilation.progress.checkEnd compilation.image.color); write action)
        compilation) := by
  refine outcome_verify (fun _ hend => .read (Progress.ofReading_of_checkEnd hend) h.idle) ?_
  intro hend
  obtain ⟨hgiven, header, data, hdata, hbegun⟩ := h.checked hend
  refine (outcome_write (haction header data hbegun)).mono ?_ ?_
  · rintro _ ⟨body, progress, writer⟩ ⟨⟨before, hbefore, hadds⟩, hprogress, hbody⟩
    dsimp only at hprogress hbody
    subst hprogress hbody
    exact ⟨hgiven, hend, header, data, before, hdata, hbefore, hadds⟩
  · rintro _ ⟨body, progress, writer⟩ ⟨⟨reason, hreason, rfl, hafter⟩, hprogress, hbody⟩
    dsimp only at hprogress hbody hafter
    subst hprogress hbody
    rcases hafter with hafter | ⟨before, hbefore, hadds⟩
    · exact .write (.broken (.refused hreason (.inr ⟨header, data, hafter⟩)))
    · exact .write (.last hreason hend hdata hbefore hadds)

/-- At the end of the source the datastream is completed, or the run breaks off. -/
theorem outcome_finish (h : Going sink fault compilation) :
    Outcome (fun _ after => Complete sink after) (Fate sink fault) (finish compilation) :=
  outcome_checked h fun _ _ hbegun => Writer.outcome_writeEnd hbegun

/-- A run is complete, or has broken off; then its diagnostic, if it is one, is given a line. -/
theorem outcome_run_complete (source : Source) (sink : Sink) :
    Outcome (fun _ after => Complete sink after)
      (fun failure after => ∃ original line, failure = Failure.withLine line original ∧
        Fate sink source.fault original after)
      (run (.ofSource source sink)) := by
  have hstart : Going sink source.fault (.ofSource source sink) := by
    refine ⟨[], false, (Compiled.start source sink).ordered, ?_, ⟨?_, rfl⟩, fun _ _ => rfl, ?_⟩
    · exact ⟨⟨by simp [ofSource], by simp [ofSource], by simp [ofSource]⟩, by simp,
        by simp [ofSource]⟩
    · rintro _ ⟨⟩
    · simp
  exact outcome_run_of_finish (outcome_blocks_going hstart) (fun _ => outcome_finish)
    fun failure line _ hfate => ⟨failure, line, rfl, hfate⟩

end Compilation

end ScriptedPng
