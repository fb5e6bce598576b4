import ScriptedPng.Proofs.Block.Change
import ScriptedPng.Proofs.OneLine
import ScriptedPng.Proofs.Png.Plan
import ScriptedPng.Proofs.Png.Rows

/-!
# The course of writing

A datastream is begun when all that comes before the pixel data has been written; then chunks of
data follow, and the end. Writing can break off at each chunk, for a reason of the sink or because
something does not fit.

## Main definitions

* `Header.Of` — the header of an image that can be written.
* `Writer.Wrote` — the signature and some chunks have been written to a sink.
* `Writer.Begun` — the datastream of an image has been begun.
* `Writer.Broken` — writing has broken off.

## Main statements

* `Writer.outcome_writeInfo`, `Writer.outcome_writeData`, `Writer.outcome_writeImage`,
  `Writer.outcome_writeEnd` — what the steps of writing come to.
-/

namespace ScriptedPng.Png

open Diagnostic Record

/-! ## Headers of images -/

theorem checkHeader_eq_ok {image : Image} {type : ColorType} (h : checkHeader image = .ok type) :
    image.color.colorType? = some type ∧ image.bitDepth ∈ type.bitDepths ∧
      (type = .indexed → image.palette.length ≤ 1 <<< image.bitDepth.toNat) ∧
      (image.given.palette = true → image.palette ≠ []) := by
  simp only [checkHeader] at h
  split at h
  · cases h
  · rename_i found hfound
    split at h
    · cases h
    · split at h
      · cases h
      · split at h
        · cases h
        · cases h
          exact ⟨hfound, by grind⟩

/-- The flags of indexed images are those with a palette. -/
theorem palette_iff_of_colorType? {color : ColorFlags} {type : ColorType}
    (h : color.colorType? = some type) : color.palette = true ↔ type = .indexed := by
  obtain ⟨color, palette, alpha⟩ := color
  revert h
  cases color <;> cases palette <;> cases alpha <;> cases type <;> decide

/-- The diagnostic is about the image to be written, and the texts that its message takes over are
on one line. -/
structure OfWriting (diagnostic : Diagnostic) : Prop where
  isBackend_eq : diagnostic.isBackend = true
  texts : ∀ text ∈ diagnostic.cause.texts, Text.OneLine text

theorem ofWriting_of_checkHeader {image : Image} {diagnostic : Diagnostic}
    (h : checkHeader image = .error diagnostic) : OfWriting diagnostic := by
  simp only [checkHeader] at h
  repeat' split at h
  all_goals cases h
  all_goals exact ⟨rfl, by simp [Cause.texts]⟩

/-- The header tells the size and the form of the image, which can be written and has a palette of
octets. -/
structure Header.Of (header : Header) (image : Image) : Prop where
  checked : checkHeader image = .ok header.type
  legal : header.Legal
  width : image.width = header.width
  height : image.height = header.height
  bitDepth : image.bitDepth = header.bitDepth
  interlace : image.interlace = header.interlace
  palette : ∀ entry ∈ image.palette, entry.IsBytes

/-- The chunks before the pixel data are those of the header and of what has been given. -/
theorem Header.Of.follows {header : Header} {image : Image} (h : header.Of image) :
    (infoPlan image header.type).Follows (InfoChunk header image.palette)
      (infoTypes image.given) :=
  follows_infoPlan h.legal h.width h.height h.bitDepth h.interlace h.palette

/-- An image that can be written has a header, if it has a size. -/
theorem exists_header {image : Image} {type : ColorType} (hcheck : checkHeader image = .ok type)
    (hbounded : image.Bounded) (hheight : image.height ≠ 0) (hwidth : image.width ≠ 0) :
    ∃ header : Header, header.type = type ∧ header.Of image := by
  obtain ⟨-, hdepth, -, -⟩ := checkHeader_eq_ok hcheck
  have hdepths := Header.bitDepth_le hdepth
  have hwidths := hbounded.width
  have hheights := hbounded.height
  have hcast : ((image.bitDepth.toNat : Nat) : Int) = image.bitDepth := by omega
  refine ⟨⟨image.width.toNat, image.height.toNat, image.bitDepth.toNat, type, image.interlace⟩, rfl,
    hcheck, ⟨?_, ?_, ?_, ?_, hcast ▸ hdepth⟩, ?_, ?_, hcast.symm, rfl, hbounded.palette⟩
  all_goals dsimp only
  all_goals omega

/-! ## What has been written -/

namespace Writer

/-- The signature and the chunks have been written to the sink, one write each. -/
structure Wrote (sink : Sink) (chunks : List Chunk) (writer : Writer) : Prop where
  written : writer.sink.written = sink.written ++ signature :: chunks.map Chunk.encode
  types : writer.types = chunks.map Chunk.type
  reasons : writer.sink.reasons = sink.reasons

variable {sink : Sink} {image : Image} {header : Header} {data : List Chunk} {writer : Writer}

theorem Wrote.adds {chunks more : List Chunk} {after : Writer} (h : Wrote sink chunks writer)
    (hadds : writer.Adds after more) : Wrote sink (chunks ++ more) after where
  written := by simp [hadds.written, h.written]
  types := by simp [hadds.types, h.types]
  reasons := hadds.reasons.trans h.reasons

/-- The chunk holds pixel data. -/
structure DataChunk (chunk : Chunk) : Prop extends chunk.HasFrame where
  type_eq : chunk.type = dataType

/-- All that comes before the pixel data has been written, and chunks of data after it. -/
structure Begun (sink : Sink) (image : Image) (header : Header) (data : List Chunk)
    (writer : Writer) : Prop where
  of : header.Of image
  result : (infoPlan image header.type).result = .ok ()
  all_data : ∀ chunk ∈ data, DataChunk chunk
  wrote : Wrote sink ((infoPlan image header.type).chunks ++ data) writer

/-- Nothing has been written, or the datastream has been begun. -/
def Idle (sink : Sink) (image : Image) (writer : Writer) : Prop :=
  writer = .ofSink sink ∨ ∃ header data, Begun sink image header data writer

/-- Writing has broken off with a failure: between steps, or within what comes before the pixel
data, because the sink takes no more or because something does not fit. -/
inductive Broken (sink : Sink) (image : Image) : Failure → Writer → Prop
  | unfit {diagnostic : Diagnostic} {writer : Writer} (h : OfWriting diagnostic)
      (hidle : Idle sink image writer) : Broken sink image (.diagnostic diagnostic) writer
  | refused {reason : String} {writer : Writer} (h : reason ∈ sink.reasons)
      (hidle : Idle sink image writer) :
      Broken sink image (.ofCause (.writeFailed reason)) writer
  | info {reason : String} {writer : Writer} {header : Header} {done : List Chunk} {chunk : Chunk}
      (h : reason ∈ sink.reasons) (hof : header.Of image)
      (hdone : done ++ [chunk] <+: (infoPlan image header.type).chunks)
      (hwrote : Wrote sink done writer) : Broken sink image (.ofCause (.writeFailed reason)) writer
  | plan {failure : Failure} {writer : Writer} {header : Header} (hof : header.Of image)
      (hresult : (infoPlan image header.type).result = .error failure)
      (hwrote : Wrote sink (infoPlan image header.type).chunks writer) :
      Broken sink image failure writer

/-! ## The steps -/

/-- Writing all that comes before the pixel data begins the datastream. -/
theorem outcome_writeInfo (hbounded : image.Bounded) (hheight : image.height ≠ 0)
    (hwidth : image.width ≠ 0) :
    Outcome (fun _ after => ∃ header, Begun sink image header [] after) (Broken sink image)
      (writeInfo image (.ofSink sink)) := by
  rw [writeInfo_eq hbounded.palette]
  cases hcheck : checkHeader image with
  | error diagnostic => exact .unfit (ofWriting_of_checkHeader hcheck) (.inl rfl)
  | ok type =>
    obtain ⟨header, rfl, hof⟩ := exists_header hcheck hbounded hheight hwidth
    change Outcome _ _ ((write signature >>= fun _ => (infoPlan image header.type).run) _)
    refine .bind ((outcome_write signature (.ofSink sink)).mono_fault ?_) ?_
    · rintro _ after ⟨rfl, reason, hreason, rfl⟩
      exact .refused hreason (.inl rfl)
    rintro _ middle ⟨hwritten, htypes, hreasons⟩
    have hwrote : Wrote sink [] middle := ⟨hwritten, htypes, hreasons⟩
    refine (Plan.outcome_run _ middle).mono ?_ ?_
    · rintro _ after ⟨hresult, hadds⟩
      exact ⟨header, hof, hresult, by simp, by simpa using hwrote.adds hadds⟩
    · rintro failure after (⟨hresult, hadds⟩ | ⟨done, chunk, hdone, hadds, reason, hreason, rfl⟩)
      · exact .plan hof hresult (hwrote.adds hadds)
      · exact .info (hreasons ▸ hreason) hof hdone (hwrote.adds hadds)

/-- Whatever keeps the datastream from being begun is in the image or its plan, if the sink takes
every write. -/
theorem succeeds_writeInfo (hof : header.Of image)
    (hresult : (infoPlan image header.type).result = .ok ()) (hreasons : sink.reasons = []) :
    Succeeds (fun _ after => Begun sink image header [] after)
      (writeInfo image (.ofSink sink)) := by
  rw [writeInfo_eq hof.palette, hof.checked]
  change Outcome _ _ ((write signature >>= fun _ => (infoPlan image header.type).run) _)
  refine .bind ((outcome_write signature (.ofSink sink)).mono_fault ?_) ?_
  · rintro _ after ⟨rfl, reason, hreason, -⟩
    have hnone : reason ∈ sink.reasons := hreason
    rw [hreasons] at hnone
    cases hnone
  · rintro _ middle ⟨hwritten, htypes, hsame⟩
    have hwrote : Wrote sink [] middle := ⟨hwritten, htypes, hsame⟩
    refine (Plan.succeeds_run hresult (hsame.trans hreasons)).mono_post ?_
    rintro _ after hadds
    exact ⟨hof, hresult, by simp, by simpa using hwrote.adds hadds⟩

theorem Begun.adds {more : List Chunk} {after : Writer} (h : Begun sink image header data writer)
    (hmore : ∀ chunk ∈ more, DataChunk chunk) (hadds : writer.Adds after more) :
    Begun sink image header (data ++ more) after where
  of := h.of
  result := h.result
  all_data chunk hmem := (List.mem_append.1 hmem).elim (h.all_data chunk) (hmore chunk)
  wrote := by simpa using h.wrote.adds hadds

/-- Carrying out a plan of chunks of data goes on with the datastream. -/
theorem Begun.outcome_run (h : Begun sink image header data writer) (plan : Plan)
    (hplan : ∀ chunk ∈ plan.chunks, DataChunk chunk)
    (hresult : ∀ failure, plan.result = .error failure →
      ∃ diagnostic, failure = .diagnostic diagnostic ∧ OfWriting diagnostic) :
    Outcome (fun _ after => plan.result = .ok () ∧
        Begun sink image header (data ++ plan.chunks) after)
      (Broken sink image) (plan.run writer) := by
  refine (Plan.outcome_run plan writer).mono (fun _ after h' => ⟨h'.1, h.adds hplan h'.2⟩) ?_
  rintro failure after (⟨hfailed, hadds⟩ | ⟨done, chunk, hdone, hadds, reason, hreason, rfl⟩)
  · obtain ⟨diagnostic, rfl, hdiagnostic⟩ := hresult failure hfailed
    exact .unfit hdiagnostic (.inr ⟨header, _, h.adds hplan hadds⟩)
  · have hmore : ∀ chunk ∈ done, DataChunk chunk := fun chunk hmem =>
      hplan chunk (hdone.subset (List.mem_append_left _ hmem))
    exact .refused (h.wrote.reasons ▸ hreason) (.inr ⟨header, _, h.adds hmore hadds⟩)

/-- A block of data becomes a chunk, unless it is too long. -/
theorem outcome_writeData (h : Begun sink image header data writer) (octets : Octets) :
    Outcome (fun _ after => ∃ more, more ≠ [] ∧ Begun sink image header (data ++ more) after)
      (Broken sink image) (writeChunk dataType (octetField octets) writer) := by
  rw [writeChunk_octetField isType_data]
  have hfollows : (Plan.ofData dataType (octetField octets)).Follows DataChunk [dataType] :=
    Plan.follows_ofData fun found _ hlength => ⟨⟨rfl, hlength⟩, rfl⟩
  refine (h.outcome_run _ hfollows.about ?_).mono_post ?_
  · rintro failure hfailed
    simp only [Plan.ofData] at hfailed
    split at hfailed <;> cases hfailed
    exact ⟨_, rfl, rfl, by simp [Cause.texts]; decide⟩
  · rintro _ after ⟨hresult, hbegun⟩
    refine ⟨_, fun hnil => ?_, hbegun⟩
    have htypes := hfollows.types_eq hresult
    rw [hnil] at htypes
    cases htypes

theorem compress_ne_nil (octets : Octets) : Zlib.compress octets ≠ [] := by
  simp [Zlib.compress, Zlib.streamHeader]

theorem chunks_dataPlan_ne_nil (raw : Octets) : (dataPlan raw).chunks ≠ [] := by
  intro hnil
  refine compress_ne_nil raw ?_
  rw [← Octets.flatten_pieces (dataLimit - 1) (Zlib.compress raw),
    List.map_eq_nil_iff.1 hnil, List.flatten_nil]

theorem dataChunk_of_mem_dataPlan {raw : Octets} {chunk : Chunk}
    (h : chunk ∈ (dataPlan raw).chunks) : DataChunk chunk := by
  obtain ⟨piece, hpiece, rfl⟩ := List.mem_map.1 h
  have := (Octets.length_le_of_mem_pieces hpiece).2
  exact ⟨⟨rfl, Nat.lt_of_le_of_lt this (by decide)⟩, rfl⟩

/-- The pixels of an image become chunks of data, unless a sample is too large. -/
theorem outcome_writeImage (h : Begun sink image header data writer) {octets : Octets}
    (hlength : (octets.length : Int) = image.width * image.height * image.pixelSize) :
    Outcome (fun _ after => ∃ more, more ≠ [] ∧ Begun sink image header (data ++ more) after)
      (Broken sink image) (writeImage image octets writer) := by
  rw [writeImage_eq]
  have hwidth : 0 < image.width := by
    have := h.of.legal.width_pos
    rw [h.of.width]
    omega
  have hheight : 0 ≤ image.height := by
    rw [h.of.height]
    omega
  cases hraw : imageData image octets with
  | error failure =>
    obtain rfl : failure = .ofCause (.sampleOutOfRange image octets) := by
      simp only [imageData] at hraw
      split at hraw
      · cases hraw
      · rename_i hscan
        cases fault_of_scanlines hwidth hheight hlength hscan
      · cases hraw
        rfl
    exact .unfit ⟨rfl, by simp [Cause.texts]⟩ (.inr ⟨header, data, h⟩)
  | ok raw =>
    refine (h.outcome_run (dataPlan raw) (fun _ hmem => dataChunk_of_mem_dataPlan hmem)
      (by rintro _ ⟨⟩)).mono_post ?_
    rintro _ after ⟨-, hbegun⟩
    exact ⟨_, chunks_dataPlan_ne_nil raw, hbegun⟩

/-- Pixel data that can be stored is written to a sink that takes every write. -/
theorem Begun.succeeds_writeImage (h : Begun sink image header data writer) {octets raw : Octets}
    (hraw : imageData image octets = .ok raw) (hreasons : sink.reasons = []) :
    Succeeds (fun _ after => Begun sink image header (data ++ (dataPlan raw).chunks) after)
      (writeImage image octets writer) := by
  rw [writeImage_eq, hraw]
  refine (Plan.succeeds_run rfl (h.wrote.reasons.trans hreasons)).mono_post ?_
  exact fun _ after hadds => h.adds (fun _ hmem => dataChunk_of_mem_dataPlan hmem) hadds

/-- The last chunk of a datastream. -/
def lastChunk : Chunk := ⟨endType, []⟩

/-- The datastream ends with the last chunk. If flushing fails, all of it has been written. -/
theorem outcome_writeEnd (h : Begun sink image header data writer) :
    Outcome (fun _ after => ∃ before, Begun sink image header data before ∧
        before.Adds after [lastChunk])
      (fun failure after => ∃ reason ∈ sink.reasons, failure = .ofCause (.writeFailed reason) ∧
        (Begun sink image header data after ∨
          ∃ before, Begun sink image header data before ∧ before.Adds after [lastChunk]))
      (writeEnd writer) := by
  rw [writeEnd_eq]
  refine .bind ((outcome_writeFrame lastChunk writer).mono_fault ?_) ?_
  · rintro _ after ⟨rfl, reason, hreason, rfl⟩
    exact ⟨reason, h.wrote.reasons ▸ hreason, rfl, .inl h⟩
  rintro _ after hadds
  change Outcome _ _ (lift (after.sink.flush.mapError fun reason =>
    .ofCause (.writeFailed reason)) after)
  cases hfault : after.sink.flushFault with
  | none => simpa [Sink.flush, hfault] using ⟨writer, h, hadds⟩
  | some reason =>
    have hreason : reason ∈ sink.reasons := by
      rw [← h.wrote.reasons, ← hadds.reasons]
      simp [Sink.reasons, hfault]
    simp only [Sink.flush, hfault, mapError_error]
    exact ⟨reason, hreason, rfl, .inr ⟨writer, h, hadds⟩⟩

end Writer

end ScriptedPng.Png
