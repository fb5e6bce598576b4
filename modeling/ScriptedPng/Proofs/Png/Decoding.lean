import ScriptedPng.Proofs.Block.Spelled
import ScriptedPng.Proofs.Png.Datastream
import ScriptedPng.Proofs.Png.Scanlines
import ScriptedPng.Proofs.Zlib.Stored

/-!
# Decoding what has been written

The chunks that are written for an image show the picture that the image describes.

## Main definitions

* `Picture.Describes` — an image is described as a picture shows it.
* `Picture.chunks` — the chunks of a picture.

## Main statements

* `Picture.succeeds_writeInfo`, `Picture.succeeds_writeImage` — the chunks of the picture are
  written.
* `Picture.decode?_eq` — the chunks of a picture show it.
-/

namespace ScriptedPng.Png

open Block

/-! ## Palettes -/

/-- The octets of the colors of a palette. -/
def colorOctets (palette : List (UInt8 × UInt8 × UInt8)) : Octets :=
  palette.flatMap fun colors => [colors.1, colors.2.1, colors.2.2]

theorem paletteOctets_entries (palette : List (UInt8 × UInt8 × UInt8)) :
    paletteOctets (palette.map Palette.entry) = colorOctets palette := by
  rw [paletteOctets, colorOctets, List.flatMap_map]
  apply List.flatMap_congr
  intro colors _
  simp [Palette.entry]

theorem isBytes_entry (colors : UInt8 × UInt8 × UInt8) : (Palette.entry colors).IsBytes := by
  obtain ⟨red, green, blue⟩ := colors
  have hred := red.toNat_lt
  have hgreen := green.toNat_lt
  have hblue := blue.toNat_lt
  simp only [Rgb.IsBytes, Palette.entry, List.mem_cons, List.not_mem_nil, or_false,
    forall_eq_or_imp, forall_eq]
  omega

/-- A palette is read back from its octets. -/
theorem readPalette_colorOctets (palette : List (UInt8 × UInt8 × UInt8)) :
    readPalette (colorOctets palette) = some palette := by
  induction palette with
  | nil => rfl
  | cons colors palette ih =>
    rw [colorOctets] at ih ⊢
    rw [List.flatMap_cons]
    simp only [List.cons_append, List.nil_append, readPalette, ih, Option.map_some]

/-! ## Chunks of a picture -/

namespace Picture

/-- The image is described as the picture shows it, and nothing else has been given. -/
structure Describes (picture : Picture) (image : Image) : Prop where
  of : picture.header.Of image
  palette_eq : image.palette = picture.palette.map Palette.entry
  given_eq : image.given = { palette := decide (picture.header.type = .indexed) }

/-- The chunks before the pixel data. -/
def infoChunks (picture : Picture) : List Chunk :=
  ⟨headerType, picture.header.octets⟩ ::
    if picture.header.type = .indexed then [⟨paletteType, colorOctets picture.palette⟩] else []

/-- The chunks of a picture whose scanlines are given as octets. -/
def chunks (picture : Picture) (raw : Octets) : List Chunk :=
  picture.infoChunks ++ (dataPlan raw).chunks ++ [Writer.lastChunk]

variable {picture : Picture} {image : Image} {raw : Octets}

theorem palette_nil (h : picture.Legal) (htype : picture.header.type ≠ .indexed) :
    picture.palette = [] := by
  have hpalette := h.palette
  rwa [if_neg htype] at hpalette

/-- The palette of the picture is in the chunks. -/
theorem dataOf_palette (h : picture.Legal) :
    dataOf paletteType (picture.chunks raw) = colorOctets picture.palette := by
  have hheader : headerType ≠ paletteType := by decide
  have hdata : dataType ≠ paletteType := by decide
  have hend : Writer.lastChunk.type ≠ paletteType := by decide
  have hpieces : ((dataPlan raw).chunks.filter (·.type = paletteType)) = [] := by
    apply List.filter_eq_nil_iff.2
    intro chunk hmem
    obtain ⟨piece, -, rfl⟩ := List.mem_map.1 hmem
    simp [hdata]
  rw [dataOf, chunks, infoChunks, List.filter_append, List.filter_append, hpieces]
  by_cases htype : picture.header.type = .indexed
  · simp [htype, hheader, hend]
  · simp [htype, hheader, hend, palette_nil h htype, colorOctets]

/-- The compressed scanlines are in the chunks, however many they take. -/
theorem dataOf_data : dataOf dataType (picture.chunks raw) = Zlib.compress raw := by
  have hheader : headerType ≠ dataType := by decide
  have hpalette : paletteType ≠ dataType := by decide
  have hend : Writer.lastChunk.type ≠ dataType := by decide
  have hinfo : picture.infoChunks.filter (·.type = dataType) = [] := by
    rw [infoChunks]
    split <;> simp [hheader, hpalette]
  have hpieces : (dataPlan raw).chunks.filter (·.type = dataType) = (dataPlan raw).chunks := by
    apply List.filter_eq_self.2
    intro chunk hmem
    obtain ⟨piece, -, rfl⟩ := List.mem_map.1 hmem
    simp
  have hflatten : (dataPlan raw).chunks.flatMap Chunk.data = Zlib.compress raw := by
    have hall := Octets.flatten_pieces (dataLimit - 1) (Zlib.compress raw)
    rw [List.flatten_eq_flatMap] at hall
    rw [dataPlan, List.flatMap_map]
    exact hall
  rw [dataOf, chunks, List.filter_append, List.filter_append, hinfo, hpieces]
  simp [hend, hflatten]

/-- The chunks of a picture show it. -/
theorem ofChunks?_eq (h : picture.Legal)
    (hraw : (readScanlines picture.header picture.header.order raw).bind
      (arrange picture.header) = some picture.rows) :
    ofChunks? (picture.chunks raw) = some picture := by
  obtain ⟨pixels, hpixels, hrows⟩ := Option.bind_eq_some_iff.1 hraw
  have hhead : (picture.chunks raw).head? = some ⟨headerType, picture.header.octets⟩ := rfl
  have hlast : (picture.chunks raw).getLast? = some ⟨endType, []⟩ := by
    rw [chunks, List.getLast?_concat]
    rfl
  have hdata : ofData? picture.header (colorOctets picture.palette) (Zlib.compress raw) =
      some picture := by
    simp [ofData?, readPalette_colorOctets, Zlib.decompress?_compress, hpixels, hrows]
  have hparts : ofData? picture.header (dataOf paletteType (picture.chunks raw))
      (dataOf dataType (picture.chunks raw)) = some picture := by
    rw [dataOf_palette h, dataOf_data, hdata]
  simp [ofChunks?, hhead, hlast, Header.ofOctets?_octets h.header, hparts]

/-! ## Datastreams of a picture -/

/-- A palette has no more entries than there are samples. -/
theorem length_palette_le (h : picture.Legal) : picture.palette.length ≤ 65536 := by
  by_cases htype : picture.header.type = .indexed
  · have hbits : ∀ depth ∈ [1, 2, 4, 8, 16], 1 <<< depth ≤ 65536 := by decide
    have hpalette := h.palette
    rw [if_pos htype] at hpalette
    exact Nat.le_trans hpalette.2 (hbits _ (mem_of_mem_bitDepths h.header.bitDepth_mem))
  · simp [palette_nil h htype]

theorem length_colorOctets_lt (h : picture.Legal) :
    (colorOctets picture.palette).length < UInt32.size := by
  have hlength := length_palette_le h
  rw [← paletteOctets_entries, length_paletteOctets, List.length_map]
  exact Nat.lt_of_le_of_lt (Nat.mul_le_mul_left 3 hlength) (by decide)

/-- All chunks of a picture have frames. -/
theorem hasFrame_of_mem (h : picture.Legal) {chunk : Chunk} (hmem : chunk ∈ picture.chunks raw) :
    chunk.HasFrame := by
  rw [chunks, List.mem_append, List.mem_append, infoChunks] at hmem
  rcases hmem with (hmem | hmem) | hmem
  · rcases List.mem_cons.1 hmem with rfl | hmem
    · exact ⟨rfl, by simp [Header.octets]; decide⟩
    · split at hmem
      · obtain rfl := List.mem_singleton.1 hmem
        exact ⟨rfl, length_colorOctets_lt h⟩
      · cases hmem
  · obtain ⟨piece, hpiece, rfl⟩ := List.mem_map.1 hmem
    have hlength := (Octets.length_le_of_mem_pieces hpiece).2
    exact ⟨rfl, Nat.lt_of_le_of_lt hlength (by decide)⟩
  · obtain rfl := List.mem_singleton.1 hmem
    exact ⟨rfl, by decide⟩

/-- The types of the chunks of a picture are the word of a datastream. -/
theorem isStart_chunks : IsStart ((picture.chunks raw).map Chunk.type) := by
  have hpieces : (Zlib.compress raw).pieces (dataLimit - 1) ≠ [] := fun hnil => by
    have hflatten := Octets.flatten_pieces (dataLimit - 1) (Zlib.compress raw)
    rw [hnil] at hflatten
    exact Writer.compress_ne_nil raw hflatten.symm
  obtain ⟨n, hn⟩ := Nat.exists_eq_add_one_of_ne_zero (mt List.length_eq_zero_iff.1 hpieces)
  have hword := isWord_of_info { palette := decide (picture.header.type = .indexed) } n
  have htypes : (picture.chunks raw).map Chunk.type =
      infoTypes { palette := decide (picture.header.type = .indexed) } ++
        List.replicate (n + 1) dataType ++ [endType] := by
    rw [← hn, ← List.map_const']
    by_cases htype : picture.header.type = .indexed <;>
      simp [chunks, infoChunks, infoTypes, dataPlan, htype, Writer.lastChunk, Function.comp_def]
  exact ⟨_, htypes ▸ hword, List.prefix_rfl⟩

theorem chunks?_of_datastream {chunks : List Chunk} {octets : Octets}
    (h : Datastream chunks octets) : chunks? octets = some chunks := by
  have hparts (chunks : List Chunk) : (chunks.map Chunk.part).mapM Part.chunk? = some chunks := by
    induction chunks with
    | nil => rfl
    | cons chunk chunks ih =>
      have hchunk : Part.chunk? chunk.part = some chunk := if_pos rfl
      rw [List.map_cons, List.mapM_cons, hchunk, ih]
      rfl
  simp only [chunks?, h.split?_eq, hparts]

/-- A datastream of the chunks of a picture shows the picture. -/
theorem decode?_eq (h : picture.Legal)
    (hraw : (readScanlines picture.header picture.header.order raw).bind
      (arrange picture.header) = some picture.rows)
    {octets : Octets} (hoctets : octets = signature ++ (picture.chunks raw).flatMap Chunk.encode) :
    decode? octets = some picture := by
  have hstream : Datastream (picture.chunks raw) octets :=
    ⟨hoctets, fun chunk hmem => hasFrame_of_mem h hmem, isStart_chunks⟩
  rw [decode?, chunks?_of_datastream hstream]
  exact ofChunks?_eq h hraw

/-! ## Writing a picture -/

/-- The plan of the chunks before the pixel data is that of the picture. -/
theorem infoPlan_eq (h : picture.Legal) (hdescribes : picture.Describes image) :
    infoPlan image picture.header.type = ⟨picture.infoChunks, .ok ()⟩ := by
  have hheader : Plan.ofData headerType (headerRecord image.width image.height image.bitDepth
      picture.header.type image.interlace) = ⟨[⟨headerType, picture.header.octets⟩], .ok ()⟩ := by
    rw [hdescribes.of.width, hdescribes.of.height, hdescribes.of.bitDepth,
      hdescribes.of.interlace]
    exact Plan.ofData_of_raw (raw_headerRecord h.header) (by simp [Header.octets]; decide)
  have hpalette : Plan.ofData paletteType (paletteArray image.palette) =
      ⟨[⟨paletteType, colorOctets picture.palette⟩], .ok ()⟩ := by
    refine Plan.ofData_of_raw ?_ (length_colorOctets_lt h)
    rw [raw_paletteArray hdescribes.of.palette, hdescribes.palette_eq, paletteOctets_entries]
  rw [infoPlan, hheader, hpalette, hdescribes.given_eq, infoChunks]
  by_cases htype : picture.header.type = .indexed <;> simp [Plan.when, Plan.andThen, htype]

variable {sink : Sink} {writer : Writer} {written : List Chunk}

/-- All that comes before the pixel data is written. -/
theorem succeeds_writeInfo (h : picture.Legal) (hdescribes : picture.Describes image)
    (hreasons : sink.reasons = []) :
    Succeeds (fun _ after => Writer.Wrote sink picture.infoChunks after)
      (Writer.writeInfo image (.ofSink sink)) := by
  have hplan := infoPlan_eq h hdescribes
  refine (Writer.succeeds_writeInfo hdescribes.of (by rw [hplan]) hreasons).mono_post ?_
  rintro _ after ⟨-, -, -, hwrote⟩
  simpa [hplan] using hwrote

/-- The chunks that hold the pixels of a picture are written. -/
theorem succeeds_writeImage (hraw : imageData image picture.data = .ok raw)
    (hwrote : Writer.Wrote sink written writer) (hreasons : sink.reasons = []) :
    Succeeds (fun _ after => Writer.Wrote sink (written ++ (dataPlan raw).chunks) after)
      (Writer.writeImage image picture.data writer) := by
  rw [Writer.writeImage_eq, hraw]
  refine (Plan.succeeds_run rfl (hwrote.reasons.trans hreasons)).mono_post ?_
  exact fun _ after hadds => hwrote.adds hadds

/-- The last chunk is written. -/
theorem succeeds_writeEnd (hwrote : Writer.Wrote sink written writer)
    (hreasons : sink.reasons = []) :
    Succeeds (fun _ after => Writer.Wrote sink (written ++ [Writer.lastChunk]) after)
      (Writer.writeEnd writer) := by
  rw [Writer.writeEnd_eq]
  have hnone := hwrote.reasons.trans hreasons
  refine .bind ((Writer.outcome_writeFrame Writer.lastChunk writer).mono_fault ?_) ?_
  · rintro _ after ⟨-, reason, hreason, -⟩
    rw [hnone] at hreason
    cases hreason
  · rintro _ after hadds
    have hflush : after.sink.flush = .ok () := by
      have hreasons := hadds.reasons.trans hnone
      rw [Sink.reasons, List.append_eq_nil_iff, Option.toList_eq_nil_iff,
        Option.toList_eq_nil_iff] at hreasons
      rw [Sink.flush, hreasons.2]
    change Outcome _ _ (Writer.lift (after.sink.flush.mapError fun reason =>
      .ofCause (.writeFailed reason)) after)
    rw [hflush]
    exact hwrote.adds hadds

end Picture

end ScriptedPng.Png
