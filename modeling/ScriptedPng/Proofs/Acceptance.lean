import Mathlib.Control.Monad.Basic
import ScriptedPng.Proofs.Lexer.Pieces
import ScriptedPng.Proofs.Png.Samples
import ScriptedPng.Proofs.Reached
import ScriptedPng.Proofs.Spelling
import ScriptedPng.Proofs.Written

/-!
# What a block of pixels has to be

A block of pixels is compiled if the header is legal, its text is closed and can be decoded, the
octets are as many as the pixels take, and the samples fit the bit depth. These conditions are tried
in this order, and the first one that fails gives the diagnostic. The header is tried before any of
the text is read, and the pixel data is written only after all of them.

## Main definitions

* `Lexer.Collects` — what collecting a data segment comes to.
* `Compilation.Refuses` — a block of pixels is refused, and no pixel data is written.
* `Compilation.Ready` — a compilation in front of the text of a block of pixels.

## Main statements

* `Compilation.Ready.refuses_uncollected`, `Compilation.Ready.refuses_length`,
  `Compilation.Ready.refuses_samples`, `Compilation.Ready.accepts` — the conditions one by one,
  provided that the header is legal.
* `Compilation.pixels_accepted` — when a block of pixels is compiled, and what is wrong else.
-/

namespace ScriptedPng

open Block Diagnostic Png

/-- How many octets of pixel data an image takes. -/
def Image.dataLength (image : Image) : Int :=
  image.width * image.height * image.pixelSize

/-! ## Data segments -/

namespace Segment.Collector

variable {collector after : Collector} {digits : List Char}

theorem cause_of_feedAll {cause : Cause} (h : collector.feedAll digits = .error cause) :
    cause = .badDataCharacter := by
  induction digits generalizing collector with
  | nil => cases h
  | cons c digits ih =>
    rw [feedAll_cons] at h
    cases hfeed : collector.feed c with
    | error found =>
      rw [hfeed] at h
      cases h
      exact (cause_of_feed hfeed).1
    | ok next =>
      rw [hfeed] at h
      exact ih h

/-- A segment that is closed is malformed if it cannot be decoded. -/
theorem category_of_decodeRest {cause : Cause} (h : collector.decodeRest digits = .error cause) :
    cause.category = .malformedData := by
  rw [decodeRest] at h
  cases hfeed : collector.feedAll digits with
  | error found =>
    rw [hfeed] at h
    cases h
    rw [cause_of_feedAll hfeed]
    rfl
  | ok after =>
    rw [hfeed] at h
    change after.finish = .error cause at h
    rw [cause_of_finish h]
    rfl

/-- A segment that is not closed is malformed, or else the source ends in it. -/
theorem category_openFault (digits : List Char) (collector : Collector) :
    (openFault digits collector).category ∈ [Category.malformedData, .unexpectedEnd] := by
  rw [openFault]
  cases hfeed : collector.feedAll digits with
  | error found =>
    rw [cause_of_feedAll hfeed]
    decide
  | ok after => exact List.mem_cons_of_mem _ List.mem_cons_self

end Segment.Collector

namespace Lexer

variable {lexer : Lexer} {digits rest : List Char}

/-- Collecting the data segment that comes next gives the octets, or else fails for the cause. -/
def Collects (alphabet : Segment.Alphabet) (result : Except Cause Octets) (lexer : Lexer) : Prop :=
  Outcome (fun octets _ => result = .ok octets)
    (fun diagnostic _ => result = .error diagnostic.cause) (collect alphabet lexer)

/-- What stands in front of the first delimiter is decoded. -/
theorem Ahead.collects (alphabet : Segment.Alphabet)
    (h : Ahead (digits ++ '\x7d' :: rest) lexer) (hdigits : '\x7d' ∉ digits) :
    Collects alphabet (Segment.decode alphabet (String.ofList digits)) lexer := by
  rw [Collects, collect, h.ahead, Segment.decode_eq]
  exact (outcome_collectInto hdigits).mono_post fun _ _ hoctets => hoctets.1

/-- A text without the delimiter gives no octets. -/
theorem Ahead.collects_open (alphabet : Segment.Alphabet) (h : Ahead digits lexer)
    (hopen : '\x7d' ∉ digits) :
    Collects alphabet (.error (Segment.Collector.openFault digits { alphabet })) lexer := by
  rw [Collects, collect, h.ahead]
  refine (outcome_collectInto_open hopen).mono (fun _ _ hfalse => hfalse.elim) ?_
  intro diagnostic after hcause
  rw [hcause h.fault]

end Lexer

namespace Compilation

open Writer

-- Statements about writing a chunk are not to be unfolded into running the writer.
attribute [local irreducible] Writer.writeChunk

variable {sink : Sink} {header : Header} {text digits rest : List Char} {octets : Octets}
  {compilation : Compilation}

/-- The failure is a diagnostic with the cause. What comes before the pixel data has been written,
and no chunk of data. -/
structure Refusal (sink : Sink) (cause : Cause) (failure : Failure) (after : Compilation) :
    Prop where
  diagnostic : ∃ diagnostic, failure = .diagnostic diagnostic ∧ diagnostic.cause = cause
  written : ∃ chunks, Started sink chunks after.writer ∧ dataType ∉ chunks.map Chunk.type

/-- A block of pixels is refused for the cause, and no pixel data is written. -/
def Refuses (sink : Sink) (cause : Cause) (compilation : Compilation) : Prop :=
  Outcome (fun _ _ => False) (Refusal sink cause) (pixels compilation)

/-- A compilation in front of the text of a block of pixels, with an image whose header is legal and
whose properties can all be written. -/
structure Ready (sink : Sink) (header : Header) (text : List Char) (compilation : Compilation) :
    Prop where
  hasPixels_eq : compilation.progress.hasPixels = false
  writer_eq : compilation.writer = .ofSink sink
  of : header.Of compilation.image
  result : (infoPlan compilation.image header.type).result = .ok ()
  reasons : sink.reasons = []
  ahead : Lexer.Ahead text compilation.lexer

/-- The chunks before the pixel data are none of data. -/
theorem Refusal.of_begun {cause : Cause} {diagnostic : Diagnostic} {after : Compilation}
    {image : Image} (hcause : diagnostic.cause = cause)
    (hbegun : Begun sink image header [] after.writer) :
    Refusal sink cause (.diagnostic diagnostic) after where
  diagnostic := ⟨diagnostic, rfl, hcause⟩
  written := by
    refine ⟨_, (started_of_begun hbegun).1, ?_⟩
    obtain ⟨before, -, heq, -, hdata, -⟩ := infoTypes_eq image.given
    rw [types_of_begun hbegun, heq]
    have hheader : dataType ≠ headerType := by decide
    simp [hheader, hdata]

/-- The datastream is begun, and nothing of the text is read. -/
theorem Ready.succeeds_startPixels (h : Ready sink header text compilation) :
    Succeeds (fun _ after => after.toBody = compilation.toBody ∧
        Begun sink compilation.image header [] after.writer) (startPixels compilation) := by
  rw [startPixels_eq, h.hasPixels_eq]
  have hinfo := Writer.succeeds_writeInfo h.of h.result h.reasons
  rw [← h.writer_eq] at hinfo
  exact (succeeds_write hinfo).mono_post fun _ after hafter => ⟨hafter.2.2, hafter.1⟩

/-- When the datastream has been begun, the text is collected; if there are as many octets as the
pixels take, they are written. -/
theorem Ready.outcome_pixels (h : Ready sink header text compilation)
    {result : Except Cause Octets}
    (hcollects : compilation.lexer.Collects (alphabet compilation.image) result)
    {post : Unit → Compilation → Prop} {fault : Failure → Compilation → Prop}
    (hfailed : ∀ diagnostic (after : Compilation), result = .error diagnostic.cause →
      Begun sink compilation.image header [] after.writer → fault (.diagnostic diagnostic) after)
    (hlength : ∀ octets (after : Compilation), result = .ok octets →
      (octets.length : Int) ≠ compilation.image.dataLength →
      Begun sink compilation.image header [] after.writer →
      fault (.ofCause (.sizeMismatch octets.length compilation.image.dataLength)) after)
    (hwrite : ∀ octets (state : Compilation), result = .ok octets →
      (octets.length : Int) = compilation.image.dataLength →
      Begun sink compilation.image header [] state.writer →
      Outcome post fault (write (Writer.writeImage compilation.image octets) state)) :
    Outcome post fault (pixels compilation) := by
  change Outcome post fault ((startPixels >>= _) compilation)
  refine .bind (h.succeeds_startPixels.mono_fault fun _ _ hfalse => hfalse.elim) ?_
  rintro _ started ⟨hbody, hbegun⟩
  have hlexer : started.lexer = compilation.lexer := congrArg Body.lexer hbody
  rw [← hlexer, Lexer.Collects] at hcollects
  refine .bind ((outcome_read (Block.outcome_read hcollects)).mono_fault ?_) ?_
  · rintro _ after ⟨⟨diagnostic, rfl, -, hcause⟩, -, hwriter⟩
    exact hfailed diagnostic after hcause (hwriter ▸ hbegun)
  · rintro octets state ⟨⟨-, hok⟩, -, hwriter⟩
    rw [← hwriter] at hbegun
    exact .ite (fun heq => hwrite octets state hok heq hbegun)
      fun hne => .throw (hlength octets state hok hne hbegun)

/-! ## The conditions one by one -/

/-- Without octets the block is refused. -/
theorem Ready.refuses_uncollected (h : Ready sink header text compilation) {cause : Cause}
    (hcollects : compilation.lexer.Collects (alphabet compilation.image) (.error cause)) :
    Refuses sink cause compilation := by
  refine h.outcome_pixels hcollects ?_ (by rintro _ _ ⟨⟩) (by rintro _ _ ⟨⟩)
  intro diagnostic after hcause hbegun
  exact .of_begun (Except.error.inj hcause).symm hbegun

section

variable (h : Ready sink header text compilation)
  (hcollects : compilation.lexer.Collects (alphabet compilation.image) (.ok octets))

include h hcollects

/-- With fewer or more octets than the pixels take the block is refused. -/
theorem Ready.refuses_length (hne : (octets.length : Int) ≠ compilation.image.dataLength) :
    Refuses sink (.sizeMismatch octets.length compilation.image.dataLength) compilation := by
  refine h.outcome_pixels hcollects (by rintro _ _ ⟨⟩) ?_ ?_
  · rintro _ after ⟨rfl⟩ - hbegun
    exact .of_begun rfl hbegun
  · rintro _ state ⟨rfl⟩ heq
    exact absurd heq hne

variable (heq : (octets.length : Int) = compilation.image.dataLength)

include heq

/-- With a sample that does not fit the bit depth the block is refused. -/
theorem Ready.refuses_samples (hlarge : ¬ SamplesFit compilation.image octets) :
    Refuses sink (.sampleOutOfRange compilation.image octets) compilation := by
  cases hraw : imageData compilation.image octets with
  | ok raw => exact absurd ((h.of.imageData_eq_ok_iff heq).1 ⟨raw, hraw⟩) hlarge
  | error failure =>
    obtain rfl := (h.of.isComplete heq).imageData_eq_error hraw
    refine h.outcome_pixels hcollects (by rintro _ _ ⟨⟩) ?_ ?_
    · rintro _ after ⟨rfl⟩ hne
      exact absurd heq hne
    · rintro _ state ⟨rfl⟩ - hbegun
      have himage : Outcome (fun _ _ => False)
          (fun failure after => failure = .ofCause (.sampleOutOfRange compilation.image octets) ∧
            after = state.writer)
          (Writer.writeImage compilation.image octets state.writer) := by
        rw [writeImage_eq, hraw]
        exact ⟨rfl, rfl⟩
      refine (outcome_write himage).mono (fun _ _ hfalse => hfalse.1) ?_
      rintro _ after ⟨⟨rfl, hwriter⟩, -⟩
      exact .of_begun rfl (hwriter ▸ hbegun)

/-- If all conditions hold, the pixel data is written. -/
theorem Ready.accepts (hfit : SamplesFit compilation.image octets) :
    Succeeds (fun _ after => ∃ raw, imageData compilation.image octets = .ok raw ∧
        Begun sink compilation.image header (dataPlan raw).chunks after.writer)
      (pixels compilation) := by
  obtain ⟨raw, hraw⟩ := (h.of.imageData_eq_ok_iff heq).2 hfit
  refine h.outcome_pixels hcollects (by rintro _ _ ⟨⟩) ?_ ?_
  · rintro _ after ⟨rfl⟩ hne
    exact absurd heq hne
  · rintro _ state ⟨rfl⟩ - hbegun
    refine (succeeds_write (hbegun.succeeds_writeImage hraw h.reasons)).mono_post ?_
    rintro _ after ⟨hafter, -⟩
    exact ⟨raw, hraw, hafter⟩

end

/-! ## Blocks of pixels -/

/-- With a legal header a compilation is ready for the text of a block of pixels. -/
theorem Reached.exists_ready (h : Reached sink compilation)
    (hcheck : compilation.progress.check compilation.image.color .pixels = .ok ())
    (hnumbers : NumbersFit compilation.image) (hreasons : sink.reasons = [])
    (hahead : Lexer.Ahead text compilation.lexer) {type : ColorType}
    (hlegal : checkHeader compilation.image = .ok type) :
    ∃ header, Ready sink header text compilation := by
  obtain ⟨names, hheader, hnone, ⟨hdescribed, hintent, hwriter⟩, hpalette⟩ := h.waiting hcheck
  obtain ⟨hheight, hwidth⟩ := hdescribed.sized hheader
  obtain ⟨header, rfl, hof⟩ := exists_header hlegal hdescribed.bounded hheight hwidth
  exact ⟨header, hnone, hwriter, hof, result_infoPlan hof hnumbers hintent hpalette, hreasons,
    hahead⟩

theorem Refuses.ne_ok {cause : Cause} {after : Compilation} (h : Refuses sink cause compilation) :
    pixels compilation ≠ .ok () after := by
  intro hok
  rwa [Refuses, hok] at h

/-- With a legal header, a block of pixels that is compiled meets the other conditions. -/
theorem Ready.exists_of_ok (h : Ready sink header text compilation) {after : Compilation}
    (hok : pixels compilation = .ok () after) :
    ∃ digits rest octets, text = digits ++ '\x7d' :: rest ∧ '\x7d' ∉ digits ∧
      Segment.decode (alphabet compilation.image) (String.ofList digits) = .ok octets ∧
      (octets.length : Int) = compilation.image.dataLength ∧
      SamplesFit compilation.image octets := by
  by_cases hclose : '\x7d' ∈ text
  · obtain ⟨digits, rest, rfl, hdigits⟩ := List.eq_append_cons_of_mem hclose
    have hcollects := h.ahead.collects (alphabet compilation.image) hdigits
    cases hdecode : Segment.decode (alphabet compilation.image) (String.ofList digits) with
    | error cause =>
      rw [hdecode] at hcollects
      exact absurd hok (h.refuses_uncollected hcollects).ne_ok
    | ok octets =>
      rw [hdecode] at hcollects
      by_cases heq : (octets.length : Int) = compilation.image.dataLength
      · by_cases hfit : SamplesFit compilation.image octets
        · exact ⟨digits, rest, octets, rfl, hdigits, hdecode, heq, hfit⟩
        · exact absurd hok (h.refuses_samples hcollects heq hfit).ne_ok
      · exact absurd hok (h.refuses_length hcollects heq).ne_ok
  · exact absurd hok (h.refuses_uncollected (h.ahead.collects_open _ hclose)).ne_ok

/-- With an illegal header a block of pixels does nothing. -/
theorem Reached.pixels_of_illegal (h : Reached sink compilation)
    (hcheck : compilation.progress.check compilation.image.color .pixels = .ok ())
    {diagnostic : Diagnostic} (hillegal : checkHeader compilation.image = .error diagnostic) :
    pixels compilation = .error (.diagnostic diagnostic) compilation := by
  obtain ⟨names, -, hnone, ⟨hdescribed, -, -⟩, -⟩ := h.waiting hcheck
  change (startPixels >>= _) compilation = _
  refine bind_of_error ?_
  rw [startPixels_eq, hnone]
  simp only [Writer.writeInfo_eq hdescribed.bounded.palette, hillegal]
  rfl

/-- A block of pixels that is allowed, on a sink that takes every write. It is compiled if and only
if the header is legal, the text is closed, what stands in front of the first closing delimiter is
decoded, there are as many octets as the pixels take, and the samples fit the bit depth. The first
of these conditions that does not hold gives the diagnostic. An illegal header is found before
anything is read or written, and in the other cases no chunk of data is written. -/
theorem pixels_accepted (hreached : Reached sink compilation)
    (hcheck : compilation.progress.check compilation.image.color .pixels = .ok ())
    (hnumbers : NumbersFit compilation.image) (hreasons : sink.reasons = [])
    (hahead : Lexer.Ahead text compilation.lexer) :
    ((∃ after, pixels compilation = .ok () after) ↔
      ∃ type digits rest octets, checkHeader compilation.image = .ok type ∧
        text = digits ++ '\x7d' :: rest ∧ '\x7d' ∉ digits ∧
        Segment.decode (alphabet compilation.image) (String.ofList digits) = .ok octets ∧
        (octets.length : Int) = compilation.image.dataLength ∧
        SamplesFit compilation.image octets) ∧
    (∀ diagnostic, checkHeader compilation.image = .error diagnostic →
      diagnostic.isBackend = true ∧ compilation.writer = .ofSink sink ∧
      pixels compilation = .error (.diagnostic diagnostic) compilation) ∧
    ∀ type, checkHeader compilation.image = .ok type →
      ('\x7d' ∉ text →
        (Segment.Collector.openFault text { alphabet := alphabet compilation.image }).category ∈
          [Category.malformedData, .unexpectedEnd] ∧
        Refuses sink (Segment.Collector.openFault text { alphabet := alphabet compilation.image })
          compilation) ∧
      ∀ digits rest, text = digits ++ '\x7d' :: rest → '\x7d' ∉ digits →
        (∀ cause, Segment.decode (alphabet compilation.image) (String.ofList digits) =
            .error cause →
          cause.category = .malformedData ∧ Refuses sink cause compilation) ∧
        ∀ octets, Segment.decode (alphabet compilation.image) (String.ofList digits) = .ok octets →
          ((octets.length : Int) ≠ compilation.image.dataLength →
            Refuses sink (.sizeMismatch octets.length compilation.image.dataLength)
              compilation) ∧
          ((octets.length : Int) = compilation.image.dataLength →
            ¬ SamplesFit compilation.image octets →
            Refuses sink (.sampleOutOfRange compilation.image octets) compilation) := by
  have hready {type : ColorType} (hlegal : checkHeader compilation.image = .ok type) :
      ∃ header, Ready sink header text compilation :=
    hreached.exists_ready hcheck hnumbers hreasons hahead hlegal
  refine ⟨⟨?accepted, ?accepts⟩, ?illegal, ?refuses⟩
  case accepted =>
    rintro ⟨after, hok⟩
    cases hlegal : checkHeader compilation.image with
    | error diagnostic =>
      rw [hreached.pixels_of_illegal hcheck hlegal] at hok
      cases hok
    | ok type =>
      obtain ⟨header, h⟩ := hready hlegal
      obtain ⟨digits, rest, octets, hsegment⟩ := h.exists_of_ok hok
      exact ⟨type, digits, rest, octets, rfl, hsegment⟩
  case accepts =>
    rintro ⟨type, digits, rest, octets, hlegal, rfl, hdigits, hdecode, heq, hfit⟩
    obtain ⟨header, h⟩ := hready hlegal
    have hcollects := hahead.collects (alphabet compilation.image) hdigits
    rw [hdecode] at hcollects
    have haccepts := h.accepts hcollects heq hfit
    cases hresult : pixels compilation with
    | ok _ after => exact ⟨after, rfl⟩
    | error failure after =>
      rw [hresult] at haccepts
      exact haccepts.elim
  case illegal =>
    intro diagnostic hillegal
    obtain ⟨_, -, -, hwaiting, -⟩ := hreached.waiting hcheck
    exact ⟨(ofWriting_of_checkHeader hillegal).isBackend_eq, hwaiting.writer_eq,
      hreached.pixels_of_illegal hcheck hillegal⟩
  case refuses =>
    intro type hlegal
    obtain ⟨header, h⟩ := hready hlegal
    refine ⟨fun hopen => ?_, ?_⟩
    · exact ⟨Segment.Collector.category_openFault text _,
        h.refuses_uncollected (hahead.collects_open _ hopen)⟩
    · rintro digits rest rfl hdigits
      have hcollects := hahead.collects (alphabet compilation.image) hdigits
      refine ⟨fun cause hdecode => ?_, fun octets hdecode => ?_⟩
      · rw [hdecode] at hcollects
        rw [Segment.decode_eq] at hdecode
        exact ⟨Segment.Collector.category_of_decodeRest hdecode, h.refuses_uncollected hcollects⟩
      · rw [hdecode] at hcollects
        exact ⟨h.refuses_length hcollects, h.refuses_samples hcollects⟩

/-- The texts of a header of six pixels of two bits and of a gamma, and the pixels. -/
def grayText : String :=
  "\x7bwidth 3 height 2 bitdepth 2\x7d\x7b0.45\x7d012\n321\x7d"

/-- The compilation in front of the text of the pixels. -/
def grayPixels : Compilation :=
  afterBlocks ["IHDR", "gAMA"] grayText

theorem reached_grayPixels : Reached {} grayPixels := by
  have hheader : Reached {} (afterBlocks ["IHDR"] grayText) :=
    .of_ended (.start _) (by decide +kernel)
  exact hheader.of_ended (by decide +kernel)

theorem pixels_accepted_grayPixels :
    grayPixels.progress.check grayPixels.image.color .pixels = .ok () ∧
    grayPixels.image.given.gamma = true ∧ NumbersFit grayPixels.image ∧
    Lexer.Ahead "012\n321\x7d".toList grayPixels.lexer ∧
    ∃ after, pixels grayPixels = .ok () after := by
  have hcheck : grayPixels.progress.check grayPixels.image.color .pixels = .ok () := by
    decide +kernel
  have hnumbers : NumbersFit grayPixels.image :=
    ⟨fun _ => ⟨_, 45000, by decide +kernel, by decide, rfl⟩, fun h => absurd h (by decide +kernel)⟩
  have hahead : Lexer.Ahead "012\n321\x7d".toList grayPixels.lexer :=
    ⟨by decide +kernel, by decide +kernel, by decide +kernel⟩
  refine ⟨hcheck, by decide +kernel, hnumbers, hahead, ?_⟩
  exact (pixels_accepted reached_grayPixels hcheck hnumbers rfl hahead).1.2
    ⟨.grayscale, "012\n321".toList, [], [0, 1, 2, 3, 2, 1], by decide +kernel, rfl, by decide,
      by decide +kernel, by decide +kernel, by decide +kernel⟩

end Compilation

end ScriptedPng
