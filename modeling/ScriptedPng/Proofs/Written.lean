import ScriptedPng.Proofs.Png.Datastream
import ScriptedPng.Proofs.Run
import ScriptedPng.Report

/-!
# What a run has written

Whatever breaks off a run, what has been written is nothing or the beginning of a datastream, frame
by frame; and a run that comes to a good end has written a whole datastream, whose header and
palette fit each other.

## Main definitions

* `Png.Whole` — the chunks of a whole datastream.

## Main statements

* `compile_datastream` — what has been written, however a run ends.
-/

namespace ScriptedPng

open Diagnostic Png Writer

namespace Png

/-! ## Chunks that have been written -/

/-- The signature and the chunks have been written to the sink, which are the beginning of a
datastream. -/
structure Started (sink : Sink) (chunks : List Chunk) (writer : Writer) : Prop where
  wrote : Wrote sink chunks writer
  hasFrame : ∀ chunk ∈ chunks, chunk.HasFrame
  isStart : IsStart (chunks.map Chunk.type)

variable {sink : Sink} {image : Image} {header : Header} {data : List Chunk} {writer : Writer}

/-- Chunks before the pixel data are the beginning of a datastream, and not its end. -/
theorem started_of_info (hof : header.Of image) {done : List Chunk}
    (hdone : done <+: (infoPlan image header.type).chunks) (hwrote : Wrote sink done writer) :
    Started sink done writer ∧ endType ∉ done.map Chunk.type := by
  have htypes : done.map Chunk.type <+: infoTypes image.given :=
    (hdone.map _).trans hof.follows.types_prefix
  refine ⟨⟨hwrote, fun chunk hmem => (hof.follows.about chunk (hdone.subset hmem)).toHasFrame,
    ?_⟩, fun hmem => ?_⟩
  · have hstart := isStart_of_info image.given 0
    rw [List.replicate_zero, List.append_nil] at hstart
    exact hstart.of_isPrefix htypes
  · obtain ⟨before, -, heq, -, -, hend⟩ := infoTypes_eq image.given
    rw [heq] at htypes
    rcases List.mem_cons.1 (htypes.subset hmem) with h | h
    · exact absurd h (by decide)
    · exact hend h

/-- The types of the chunks of a datastream under way. -/
theorem types_of_begun (h : Begun sink image header data writer) :
    ((infoPlan image header.type).chunks ++ data).map Chunk.type =
      infoTypes image.given ++ List.replicate data.length dataType := by
  have hdata : data.map Chunk.type = List.replicate data.length dataType := by
    refine List.eq_replicate_iff.2 ⟨List.length_map .., fun type hmem => ?_⟩
    obtain ⟨chunk, hchunk, rfl⟩ := List.mem_map.1 hmem
    exact (h.all_data chunk hchunk).type_eq
  rw [List.map_append, hdata, h.of.follows.types_eq h.result]

theorem hasFrame_of_begun (h : Begun sink image header data writer) :
    ∀ chunk ∈ (infoPlan image header.type).chunks ++ data, chunk.HasFrame := fun chunk hmem =>
  (List.mem_append.1 hmem).elim (fun hmem => (h.of.follows.about chunk hmem).toHasFrame)
    fun hmem => (h.all_data chunk hmem).toHasFrame

/-- Between the steps of writing there is a beginning of a datastream, and not its end. -/
theorem started_of_begun (h : Begun sink image header data writer) :
    Started sink ((infoPlan image header.type).chunks ++ data) writer ∧
      endType ∉ ((infoPlan image header.type).chunks ++ data).map Chunk.type := by
  have htypes := types_of_begun h
  refine ⟨⟨h.wrote, hasFrame_of_begun h, htypes ▸ isStart_of_info _ _⟩, ?_⟩
  obtain ⟨before, -, heq, -, -, hend⟩ := infoTypes_eq image.given
  rw [htypes, heq]
  have hheader : endType ≠ headerType := by decide
  have hdata : endType ≠ dataType := by decide
  simp [hheader, hdata, hend]

/-- Nothing has been written, or the beginning of a datastream without its end. -/
def Unfinished (sink : Sink) (writer : Writer) : Prop :=
  writer = .ofSink sink ∨
    ∃ chunks, Started sink chunks writer ∧ endType ∉ chunks.map Chunk.type

theorem Unfinished.of_idle (h : Idle sink image writer) : Unfinished sink writer := by
  rcases h with rfl | ⟨header, data, hbegun⟩
  · exact .inl rfl
  · exact .inr ⟨_, started_of_begun hbegun⟩

theorem Unfinished.of_broken {failure : Failure} (h : Broken sink image failure writer) :
    Unfinished sink writer := by
  cases h with
  | unfit _ hidle => exact .of_idle hidle
  | refused _ hidle => exact .of_idle hidle
  | info _ hof hdone hwrote =>
    exact .inr ⟨_, started_of_info hof ((List.prefix_append _ _).trans hdone) hwrote⟩
  | plan hof _ hwrote => exact .inr ⟨_, started_of_info hof List.prefix_rfl hwrote⟩

/-- The chunks of a whole datastream: their types are a word, the header is legal, and there is a
palette just if pixels are indexes into it, with one entry at least and no more than indexes. -/
structure Whole (chunks : List Chunk) : Prop where
  isWord : IsWord (chunks.map Chunk.type)
  header : ∃ header : Header, header.Legal ∧
    (∀ chunk ∈ chunks, chunk.type = headerType → Header.ofOctets? chunk.data = some header) ∧
    (paletteType ∈ chunks.map Chunk.type ↔ header.type = .indexed) ∧
    ∀ chunk ∈ chunks, chunk.type = paletteType →
      ∃ k, chunk.data.length = 3 * k ∧ 1 ≤ k ∧ k ≤ Nat.pow 2 header.bitDepth

/-- The end of a datastream that has been begun and has data. -/
theorem started_of_adds (h : Begun sink image header data writer) {after : Writer}
    (hadds : writer.Adds after [lastChunk]) (hdata : data ≠ []) :
    Started sink ((infoPlan image header.type).chunks ++ data ++ [lastChunk]) after ∧
      IsWord (((infoPlan image header.type).chunks ++ data ++ [lastChunk]).map Chunk.type) := by
  obtain ⟨n, hn⟩ := Nat.exists_eq_add_one_of_ne_zero (mt List.length_eq_zero_iff.1 hdata)
  have hword : IsWord
      (((infoPlan image header.type).chunks ++ data ++ [lastChunk]).map Chunk.type) := by
    rw [List.map_append, types_of_begun h, hn]
    exact isWord_of_info _ _
  refine ⟨⟨h.wrote.adds hadds, fun chunk hmem => ?_, _, hword, List.prefix_rfl⟩, hword⟩
  rcases List.mem_append.1 hmem with hmem | hmem
  · exact hasFrame_of_begun h chunk hmem
  · obtain rfl := List.mem_singleton.1 hmem
    exact ⟨rfl, by decide⟩

/-- The chunks of a complete image are those of a whole datastream. -/
theorem whole_of_adds (h : Begun sink image header data writer)
    (hgiven : image.given.palette = image.color.palette) {after : Writer}
    (hadds : writer.Adds after [lastChunk]) (hdata : data ≠ []) :
    Whole ((infoPlan image header.type).chunks ++ data ++ [lastChunk]) := by
  obtain ⟨hcolor, -, hdepth, hempty⟩ := checkHeader_eq_ok h.of.checked
  have hindexed := palette_iff_of_colorType? hcolor
  -- Headers and palettes come before the pixel data.
  have hinfo {chunk : Chunk} {type : Octets} (htype : type ≠ dataType ∧ type ≠ endType)
      (hmem : chunk ∈ (infoPlan image header.type).chunks ++ data ++ [lastChunk])
      (heq : chunk.type = type) : InfoChunk header image.palette chunk := by
    rcases List.mem_append.1 hmem with hmem | hmem
    · rcases List.mem_append.1 hmem with hmem | hmem
      · exact h.of.follows.about chunk hmem
      · exact absurd (heq.symm.trans (h.all_data chunk hmem).type_eq) htype.1
    · rw [List.mem_singleton.1 hmem] at heq
      exact absurd heq.symm htype.2
  have hpalette : paletteType ∈
      ((infoPlan image header.type).chunks ++ data ++ [lastChunk]).map Chunk.type ↔
        header.type = .indexed := by
    obtain ⟨before, -, heq, hbefore, -⟩ := infoTypes_eq image.given
    have hheader : paletteType ≠ headerType := by decide
    have hdata : paletteType ≠ dataType := by decide
    have hend : paletteType ≠ lastChunk.type := by decide
    rw [List.map_append, types_of_begun h, heq, ← hindexed, ← hgiven, ← hbefore]
    simp [hheader, hdata, hend]
  refine ⟨(started_of_adds h hadds hdata).2, header, h.of.legal, fun chunk hmem htype => ?_,
    hpalette, fun chunk hmem htype => ?_⟩
  · rw [(hinfo (by decide) hmem htype).header htype]
    exact Header.ofOctets?_octets h.of.legal
  · have hchunk := (hinfo (by decide) hmem htype).palette htype
    have htypes := hpalette.1 (htype ▸ List.mem_map_of_mem hmem)
    refine ⟨image.palette.length, hchunk ▸ length_paletteOctets _, ?_, ?_⟩
    · exact List.length_pos_iff.2 (hempty (hgiven.trans (hindexed.2 htypes)))
    · have hlimit := hdepth htypes
      rwa [h.of.bitDepth, Int.toNat_natCast, Nat.one_shiftLeft] at hlimit

end Png

/-! ## However a run ends -/

namespace Compilation

variable {sink : Sink} {compilation : Compilation}

/-- If a run breaks off, the end has been written only if the check before it has passed. -/
theorem Fate.started {fault : Option String} {failure : Failure}
    (h : Fate sink fault failure compilation) :
    compilation.writer = .ofSink sink ∨ ∃ chunks, Started sink chunks compilation.writer ∧
      (endType ∈ chunks.map Chunk.type →
        compilation.progress.checkEnd compilation.image.color = .ok ()) := by
  have hunfinished (h : Unfinished sink compilation.writer) :
      compilation.writer = .ofSink sink ∨ ∃ chunks, Started sink chunks compilation.writer ∧
        (endType ∈ chunks.map Chunk.type →
          compilation.progress.checkEnd compilation.image.color = .ok ()) := by
    rcases h with h | ⟨chunks, hstarted, hend⟩
    · exact .inl h
    · exact .inr ⟨chunks, hstarted, fun hmem => absurd hmem hend⟩
  cases h with
  | read _ hidle => exact hunfinished (.of_idle hidle)
  | write h =>
    cases h with
    | broken h => exact hunfinished (.of_broken h)
    | last _ hend hdata hbegun hadds =>
      exact .inr ⟨_, (started_of_adds hbegun hadds hdata).1, fun _ => hend⟩

end Compilation

/-- What has been written, however a run ends, and whatever reads, writes and flushing come to. It
is nothing, or the signature and frames of chunks, one write each, which can be taken apart again;
the types of the chunks are the beginning of a word, and the end is among them only if the check at
the end of the source has passed. If the run comes to a good end, it is a whole datastream. -/
theorem compile_datastream (source : Source) (room : Option (Nat × String))
    (flushFault : Option String) :
    (compile source { room, flushFault }).2.writer.sink.written = [] ∧
        (compile source { room, flushFault }).1 ≠ .ok () ∨
      ∃ chunks,
        (compile source { room, flushFault }).2.writer.sink.written =
          signature :: chunks.map Chunk.encode ∧
        Datastream chunks (compile source { room, flushFault }).2.writer.sink.octets ∧
        split? (compile source { room, flushFault }).2.writer.sink.octets =
          some (.signature :: chunks.map Chunk.part) ∧
        (endType ∈ chunks.map Chunk.type →
          (compile source { room, flushFault }).2.progress.checkEnd
            (compile source { room, flushFault }).2.image.color = .ok ()) ∧
        ((compile source { room, flushFault }).1 = .ok () → Whole chunks) := by
  have hrun := Compilation.outcome_run_complete source { room, flushFault }
  have hstream {chunks : List Chunk} {writer : Writer}
      (h : Started { room, flushFault } chunks writer) :
      writer.sink.written = signature :: chunks.map Chunk.encode ∧
        Datastream chunks writer.sink.octets ∧
        split? writer.sink.octets = some (.signature :: chunks.map Chunk.part) := by
    have hwritten := h.wrote.written
    have hoctets : Datastream chunks writer.sink.octets :=
      ⟨by simp [Sink.octets, hwritten, List.flatMap], h.hasFrame, h.isStart⟩
    exact ⟨hwritten, hoctets, hoctets.split?_eq⟩
  unfold compile
  cases hresult : Compilation.run (.ofSource source { room, flushFault }) with
  | error failure after =>
    rw [hresult] at hrun
    obtain ⟨original, line, rfl, hfate⟩ := hrun
    rcases hfate.started with hidle | ⟨chunks, hstarted, hend⟩
    · exact .inl ⟨by simp [hidle, Writer.ofSink], by simp⟩
    · obtain ⟨hwritten, hoctets, hsplit⟩ := hstream hstarted
      exact .inr ⟨chunks, hwritten, hoctets, hsplit, hend, by rintro ⟨⟩⟩
  | ok _ after =>
    rw [hresult] at hrun
    obtain ⟨hgiven, hchecked, header, data, before, hdata, hbegun, hadds⟩ := hrun
    obtain ⟨hwritten, hoctets, hsplit⟩ := hstream (started_of_adds hbegun hadds hdata).1
    exact .inr ⟨_, hwritten, hoctets, hsplit, fun _ => hchecked,
      fun _ => whole_of_adds hbegun hgiven hadds hdata⟩

end ScriptedPng
