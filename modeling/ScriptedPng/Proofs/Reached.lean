import ScriptedPng.Proofs.Png.Storable
import ScriptedPng.Proofs.Run

/-!
# Compilations that have not failed

Blocks are compiled one after the other, and each of them succeeds; between them anything may be
read. As long as none of them gives pixels, the writer is as it was in the beginning, the size of
the image is known once there is a header, and its rendering intent is one of those there are.

## Main definitions

* `Compilation.Reached` — a compilation after blocks that have succeeded.
* `Compilation.Waiting` — what is known of a compilation before the first pixels.

## Main statements

* `Compilation.outcome_block_prepared` — a block that succeeds keeps what is known.
* `Compilation.Reached.prepared` — what is known of a compilation after blocks that have succeeded.
-/

namespace ScriptedPng

open Block Diagnostic Png

namespace Block

/-! ## Rendering intents -/

variable {keyword : Keyword} {action : BodyM Unit}

/-- Only rendering intent blocks change the rendering intent. -/
theorem Change.intent_eq {before after : Image} (h : Change keyword before after)
    (hkeyword : keyword ≠ .intent) :
    after.intent = before.intent ∧ after.given.intent = before.given.intent := by
  cases h with
  | setting _ setting => cases setting <;> exact ⟨rfl, rfl⟩
  | _ => first | exact ⟨rfl, rfl⟩ | contradiction

/-- The number that has been read as a rendering intent is one of those there are. -/
theorem ensures_readIntent (invariant : Image → Prop) :
    Ensures (fun body : Body => invariant body.image) (· < intentCount) (fun _ => True)
      readIntent :=
  .bind (keeps_read _) fun _ _ => .bind (keeps_lift _) fun _ _ =>
    .ite (fun hlt => .pure hlt) fun _ => .throw trivial

/-- After a rendering intent block the intent is an octet. -/
theorem fitting_intent (body : Body) :
    Outcome (fun _ after => IntentFits after.image) (fun _ _ => True) (intent body) := by
  have hread := ensures_readIntent (fun _ => True) body trivial
  refine .bind (hread.mono_fault fun _ _ _ => trivial) ?_
  rintro number middle ⟨hlt, -⟩
  have hclose : Keeps (fun _ => True) (close Keyword.intent.name) := keeps_close _
  refine .bind ((hclose middle trivial).mono_fault fun _ _ _ => trivial) ?_
  intro _ after _
  exact fun _ => ⟨number, rfl, Nat.lt_trans hlt (by decide)⟩

/-- A block that is read leaves an intent that is an octet, if one is given. -/
theorem outcome_reader_intent (h : reader? keyword = some action) {body : Body}
    (hfits : IntentFits body.image) :
    Outcome (fun _ after => IntentFits after.image) (fun _ _ => True) (action body) := by
  by_cases hkeyword : keyword = .intent
  · subst hkeyword
    cases h
    exact fitting_intent body
  have hclosed : Closed keyword IntentFits := fun before after hchange hbefore => by
    obtain ⟨hintent, hgiven⟩ := hchange.intent_eq hkeyword
    rwa [IntentFits, hintent, hgiven]
  exact (keeps_reader h hclosed body hfits).mono (fun _ _ h => h.2) fun _ _ _ => trivial

end Block

namespace Compilation

/-- A compilation after blocks that have succeeded, from the start of a source. Anything may have
been read between them. -/
inductive Reached (sink : Sink) : Compilation → Prop
  | start (source : Source) : Reached sink (.ofSource source sink)
  | block {before after : Compilation} {token : Token} (h : Reached sink before)
      (hblock : Compilation.block token before = .ok () after) : Reached sink after
  | between {compilation : Compilation} (lexer : Lexer) (h : Reached sink compilation) :
      Reached sink { compilation with lexer }

theorem Reached.of_ended {sink : Sink} {compilation : Compilation} {token : Token}
    (h : Reached sink compilation)
    (hok : (ended (Compilation.block token compilation)).1 = .ok ()) :
    Reached sink (ended (Compilation.block token compilation)).2 := by
  cases hblock : Compilation.block token compilation with
  | ok _ after => exact h.block hblock
  | error failure after =>
    rw [hblock] at hok
    cases hok

/-- What is known of a compilation that waits for the first pixels, after blocks with the given
keywords: nothing has been written. -/
structure Waiting (sink : Sink) (names : List Keyword) (compilation : Compilation) : Prop where
  described : Described names compilation.image
  intent : IntentFits compilation.image
  writer_eq : compilation.writer = .ofSink sink

/-- The compilation is waiting, unless one of the blocks gives pixels. -/
def Waits (sink : Sink) (names : List Keyword) (compilation : Compilation) : Prop :=
  .data ∉ names → .pixels ∉ names → Waiting sink names compilation

/-- What is known of a compilation after blocks with the given keywords. -/
structure Prepared (sink : Sink) (names : List Keyword) (compilation : Compilation) : Prop where
  ordered : ∃ indexed, Ordered names indexed compilation
  waits : Waits sink names compilation

variable {sink : Sink} {names : List Keyword} {compilation : Compilation}

/-- Only the image and the writer count. -/
theorem Waits.congr {other : Compilation} (h : Waits sink names compilation)
    (himage : other.image = compilation.image) (hwriter : other.writer = compilation.writer) :
    Waits sink names other := by
  intro hdata hpixels
  obtain ⟨hdescribed, hintent, hstart⟩ := h hdata hpixels
  exact ⟨himage ▸ hdescribed, himage ▸ hintent, hwriter.trans hstart⟩

/-- The body of a block keeps the compilation waiting, unless the block gives pixels. -/
theorem outcome_body_waits {keyword : Keyword} {color : ColorFlags}
    (hallowed : Progress.Allowed names color keyword) (h : Waits sink names compilation) :
    Outcome (fun _ after => Waits sink (names ++ [keyword]) after) (fun _ _ => True)
      (body keyword compilation) := by
  cases haction : reader? keyword with
  | some action =>
    obtain ⟨⟨hdata, hpixels⟩, -⟩ := not_mem_of_reader haction hallowed
    obtain ⟨hdescribed, hintent, hstart⟩ := h hdata hpixels
    have hreader := (outcome_reader haction hallowed hdescribed).and
      (outcome_reader_intent haction hintent)
    rw [body_of_reader haction]
    refine (outcome_read hreader).mono ?_ fun _ _ _ => trivial
    rintro _ after ⟨⟨hdescribed, hintent⟩, -, hwriter⟩
    exact fun _ _ => ⟨hdescribed, hintent, hwriter.trans hstart⟩
  | none =>
    -- The other blocks give pixels or are not supported.
    cases hresult : body keyword compilation with
    | error failure after => trivial
    | ok _ after =>
      intro hdata hpixels
      cases keyword with
      | data => simp at hdata
      | pixels => simp at hpixels
      | _ => first | cases hresult | cases haction

/-- A block that succeeds keeps what is known of a compilation. -/
theorem outcome_block_prepared (token : Token) (h : Prepared sink names compilation) :
    Outcome (fun _ after => ∃ names, Prepared sink names after) (fun _ _ => True)
      (block token compilation) := by
  obtain ⟨⟨indexed, hordered⟩, hwaits⟩ := h
  have hsame : Keeps (· = compilation.image) openBody := keeps_openBody
  have hopen := hsame compilation.toBody rfl
  have hblock : Outcome (fun _ after => ∃ keyword, keyword? token = some keyword ∧
      Waits sink (names ++ [keyword]) after) (fun _ _ => True) (block token compilation) := by
    refine outcome_block (fun keyword after => Waits sink (names ++ [keyword]) after)
      (fun _ => trivial) (hopen.mono (fun _ _ h => h.2) fun _ _ _ => trivial)
      (fun _ _ _ _ _ _ => trivial) ?_
    rintro keyword body - himage hcheck
    have hallowed := (hordered.progress.check_eq_ok_iff_allowed _ _).1 hcheck
    have hopened : Waits sink names { compilation with toBody := body } := hwaits.congr himage rfl
    exact (outcome_body_waits hallowed hopened).mono_post fun _ after hafter =>
      hafter.congr rfl rfl
  refine ((outcome_block_ordered hordered token).and hblock).mono ?_ fun _ _ _ => trivial
  rintro _ after ⟨⟨keyword, hkeyword, hafter⟩, found, hfound, hrest⟩
  obtain rfl : keyword = found := Option.some.inj (hkeyword.symm.trans hfound)
  exact ⟨names ++ [keyword], ⟨_, hafter⟩, hrest⟩

theorem prepared_ofSource (source : Source) (sink : Sink) :
    Prepared sink [] (.ofSource source sink) where
  ordered := ⟨false, (Compiled.start source sink).ordered⟩
  waits _ _ := by
    have hbounded : (ofSource source sink).image.Bounded :=
      ⟨by simp [ofSource], by simp [ofSource], by simp [ofSource]⟩
    have hdescribed : Described [] (ofSource source sink).image :=
      ⟨hbounded, by simp, by simp [ofSource]⟩
    exact ⟨hdescribed, by simp [IntentFits, ofSource], rfl⟩

/-- After blocks that have succeeded, the blocks are those of a beginning, and the compilation is
waiting for the first pixels if there are none. -/
theorem Reached.prepared (h : Reached sink compilation) :
    ∃ names, Prepared sink names compilation := by
  induction h with
  | start source => exact ⟨[], prepared_ofSource source sink⟩
  | @block before after token _ hblock ih =>
    obtain ⟨names, hbefore⟩ := ih
    have := outcome_block_prepared token hbefore
    rwa [hblock] at this
  | between lexer _ ih =>
    obtain ⟨names, ⟨indexed, hordered⟩, hwaits⟩ := ih
    exact ⟨names, ⟨indexed, hordered.progress, hordered.isStart, hordered.color⟩,
      hwaits.congr rfl rfl⟩

/-- Where a block of pixels is allowed, the compilation is waiting for it, and a palette is given
only for an image that uses one. -/
theorem Reached.waiting (h : Reached sink compilation)
    (hcheck : compilation.progress.check compilation.image.color .pixels = .ok ()) :
    ∃ names, .header ∈ names ∧ compilation.progress.hasPixels = false ∧
      Waiting sink names compilation ∧
      (compilation.image.given.palette = true → compilation.image.color.palette = true) := by
  obtain ⟨names, ⟨indexed, hordered⟩, hwaits⟩ := h.prepared
  have hallowed : Progress.Allowed names _ .pixels :=
    (hordered.progress.check_eq_ok_iff_allowed _ _).1 hcheck
  obtain ⟨hheader, hpixels, hdata⟩ := hallowed
  have hstate := hwaits hdata hpixels
  refine ⟨names, hheader, ?_, hstate, fun hgiven => ?_⟩
  · rw [hordered.progress.hasPixels_eq]
    simp [hdata, hpixels]
  · rw [hordered.color (List.ne_nil_of_mem hheader)]
    exact hordered.isStart.indexed_of_palette_mem (hstate.described.given.1 hgiven)

end Compilation

end ScriptedPng
