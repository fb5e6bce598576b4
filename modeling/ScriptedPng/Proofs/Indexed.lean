import ScriptedPng.Proofs.Block.Unique
import ScriptedPng.Proofs.Emitted
import ScriptedPng.Proofs.Png.Decoding
import ScriptedPng.Proofs.Png.Samples
import ScriptedPng.Proofs.Written

/-!
# Indexes into a palette

The pixels of an image with a palette are written as they are spelled. That they fit the bit depth
is found out in packing, and that the palette has no more entries than there are indexes of these
bits when the header is checked. An index is not compared with the number of entries, so it may be
beyond the palette unless this has an entry for each of them.

## Main definitions

* `Picture.ofIndexes` — the picture of indexes that are given one after the other.
* `Picture.ShowsIndexes` — a picture shows indexes as they are given.

## Main statements

* `Segment.has_of_decode` — octets that have been decoded can be spelled.
* `Png.ofChunks?_allChunks` — what is shown by the chunks that are written for an image.
* `compile_indexed` — the picture that a run with a palette has written.
* `compile_dangling` — an index beyond the palette is written.
-/

namespace ScriptedPng

open Block Diagnostic Png

/-! ## Octets that have been decoded -/

namespace Segment

theorem lt_of_base62Value? {c : Char} {value : Nat} (h : base62Value? c = some value) :
    value < 62 := by
  -- The value is the distance from the first character of a range, and the last one is not far.
  have hle {first last : Char} (h : c ≤ last) :
      c.toNat - first.toNat ≤ last.toNat - first.toNat := Nat.sub_le_sub_right h _
  simp only [base62Value?] at h
  split at h
  · cases h
    exact Nat.lt_of_le_of_lt (hle (And.right ‹_›)) (by decide)
  · split at h
    · cases h
      exact Nat.lt_of_le_of_lt (Nat.add_le_add_right (hle (And.right ‹_›)) 10) (by decide)
    · split at h
      · cases h
        exact Nat.lt_of_le_of_lt (Nat.add_le_add_right (hle (And.right ‹_›)) 36) (by decide)
      · cases h

namespace Collector

variable {collector after : Collector}

/-- The octets completed can be spelled. -/
structure Sound (collector : Collector) : Prop where
  used_le : collector.used ≤ collector.buffer.size
  has : ∀ octet ∈ collector.octets, collector.alphabet.Has octet

theorem Sound.append (h : collector.Sound) {value : Nat}
    (hvalue : collector.alphabet.Has (UInt8.ofNat value)) : (collector.append value).Sound := by
  obtain ⟨hoctets, hused⟩ := octets_append value h.used_le
  refine ⟨hused, ?_⟩
  rw [hoctets]
  exact List.forall_mem_append.2 ⟨h.has, List.forall_mem_singleton.2 hvalue⟩

theorem Sound.feed (h : collector.Sound) {c : Char} (hfeed : collector.feed c = .ok after) :
    after.Sound ∧ after.alphabet = collector.alphabet := by
  simp only [Collector.feed] at hfeed
  split at hfeed
  · cases hfeed
    exact ⟨h, rfl⟩
  · split at hfeed <;> rename_i halphabet
    · split at hfeed
      · cases hfeed
      · rename_i value hvalue
        cases hfeed
        refine ⟨h.append ?_, rfl⟩
        have hlt := lt_of_base62Value? hvalue
        rw [halphabet]
        change (UInt8.ofNat value).toNat < 62
        rw [UInt8.toNat_ofNat', Nat.mod_eq_of_lt (by omega)]
        exact hlt
    · split at hfeed
      · cases hfeed
      · cases hfeed
        have hall (octet : UInt8) : collector.alphabet.Has octet := by
          rw [halphabet]
          trivial
        obtain ⟨hused, hhas⟩ := h.append (hall _)
        exact ⟨⟨hused, hhas⟩, rfl⟩
      · cases hfeed
        exact ⟨⟨h.used_le, h.has⟩, rfl⟩

theorem Sound.feedAll (h : collector.Sound) {chars : List Char}
    (hfeed : collector.feedAll chars = .ok after) :
    after.Sound ∧ after.alphabet = collector.alphabet := by
  induction chars generalizing collector with
  | nil =>
    cases hfeed
    exact ⟨h, rfl⟩
  | cons c chars ih =>
    rw [feedAll_cons] at hfeed
    cases hfirst : collector.feed c with
    | error cause =>
      rw [hfirst] at hfeed
      cases hfeed
    | ok next =>
      rw [hfirst] at hfeed
      obtain ⟨hnext, hsame⟩ := h.feed hfirst
      obtain ⟨hafter, hrest⟩ := ih hnext hfeed
      exact ⟨hafter, hrest.trans hsame⟩

end Collector

/-- Octets that have been decoded can be spelled. -/
theorem has_of_decode {alphabet : Alphabet} {digits : List Char} {octets : Octets}
    (h : decode alphabet (String.ofList digits) = .ok octets) :
    ∀ octet ∈ octets, alphabet.Has octet := by
  have hstart : Collector.Sound { alphabet } := ⟨Nat.zero_le _, by simp [Collector.octets]⟩
  rw [decode_eq, Collector.decodeRest] at h
  cases hfeed : Collector.feedAll digits { alphabet } with
  | error cause =>
    rw [hfeed] at h
    cases h
  | ok after =>
    rw [hfeed] at h
    obtain ⟨⟨-, hhas⟩, hsame⟩ := hstart.feedAll hfeed
    rw [show after.alphabet = alphabet from hsame] at hhas
    change after.finish = .ok octets at h
    rw [Collector.finish] at h
    split at h
    · cases h
    · cases h
      exact hhas

end Segment

/-! ## Pictures of indexes -/

namespace Png

namespace Picture

/-- The picture of indexes that are given one after the other, row by row. -/
def ofIndexes (header : Header) (palette : List (UInt8 × UInt8 × UInt8)) (indexes : Octets) :
    Picture :=
  ⟨header, palette, (indexes.pieces (header.width - 1)).map fun row =>
    row.map fun index => [index.toNat]⟩

variable {header : Header} {palette : List (UInt8 × UInt8 × UInt8)} {indexes : Octets}

theorem flatten_rows_ofIndexes :
    (ofIndexes header palette indexes).rows.flatten = indexes.map fun index => [index.toNat] := by
  rw [ofIndexes, ← List.map_flatten, Octets.flatten_pieces]

/-- The pixel data of the picture are the indexes, if they take an octet each. -/
theorem data_ofIndexes (h : header.sampleOctets = 1) :
    (ofIndexes header palette indexes).data = indexes := by
  have hpixel : header.pixelOctets = fun pixel => pixel.map UInt8.ofNat := by
    funext pixel
    rw [Header.pixelOctets, h, flatMap_big_one]
  have hdata : (ofIndexes header palette indexes).data =
      (ofIndexes header palette indexes).rows.flatten.flatMap header.pixelOctets := by
    rw [List.flatten_eq_flatMap, List.flatMap_assoc]
    rfl
  rw [hdata, flatten_rows_ofIndexes, hpixel]
  simp [List.flatMap_map]

/-- If there is an entry for each index that can be, the picture is legal. -/
theorem legal_ofIndexes (hheader : header.Legal) (htype : header.type = .indexed)
    (hpalette : palette.length = 1 <<< header.bitDepth)
    (hlength : indexes.length = header.height * header.width)
    (hlt : ∀ index ∈ indexes, index.toNat < 1 <<< header.bitDepth) :
    (ofIndexes header palette indexes).Legal := by
  have hsize : indexes.length = header.height * (header.width - 1 + 1) := by
    rw [hlength, Nat.sub_add_cancel hheader.width_pos]
  obtain ⟨hheight, hwidth⟩ := Octets.exists_pieces hsize
  have hpixel {row : List Pixel} {pixel : Pixel}
      (hrow : row ∈ (ofIndexes header palette indexes).rows) (hmem : pixel ∈ row) :
      ∃ index ∈ indexes, pixel = [index.toNat] := by
    have hflat := List.mem_flatten.2 ⟨row, hrow, hmem⟩
    rw [flatten_rows_ofIndexes] at hflat
    obtain ⟨index, hindex, rfl⟩ := List.mem_map.1 hflat
    exact ⟨index, hindex, rfl⟩
  have hsample : ∀ row ∈ (ofIndexes header palette indexes).rows, ∀ pixel ∈ row,
      ∀ sample ∈ pixel, sample < 1 <<< header.bitDepth := by
    intro row hrow pixel hmem sample hsample
    obtain ⟨index, hindex, rfl⟩ := hpixel hrow hmem
    rw [List.mem_singleton.1 hsample]
    exact hlt index hindex
  refine ⟨hheader, ?_, ?_, ?_, ?_, hsample, fun _ => ?_⟩
  · have hpos : 1 ≤ 1 <<< header.bitDepth := by
      rw [Nat.one_shiftLeft]
      exact Nat.one_le_two_pow
    rw [ofIndexes, if_pos htype, hpalette]
    exact ⟨hpos, Nat.le_refl _⟩
  · rw [ofIndexes, List.length_map, hheight]
  · intro row hrow
    obtain ⟨piece, hpiece, rfl⟩ := List.mem_map.1 hrow
    rw [List.length_map, hwidth piece hpiece, Nat.sub_add_cancel hheader.width_pos]
    rfl
  · intro row hrow pixel hmem
    obtain ⟨index, -, rfl⟩ := hpixel hrow hmem
    change 1 = header.type.channels
    rw [htype]
    rfl
  · change ∀ row ∈ (ofIndexes header palette indexes).rows, ∀ pixel ∈ row, ∀ index ∈ pixel,
      index < palette.length
    rw [hpalette]
    exact hsample

/-- The picture has a palette, and shows the indexes as they are given. They fit the bit depth, and
so does the number of entries; if a letter or digit is enough for each entry, it has been enough for
each index. -/
structure ShowsIndexes (picture : Picture) (indexes : Octets) : Prop where
  type_eq : picture.header.type = .indexed
  palette_ne_nil : picture.palette ≠ []
  palette_le : picture.palette.length ≤ 1 <<< picture.header.bitDepth
  indexes_eq : picture.rows.flatten = indexes.map fun index => [index.toNat]
  index_lt : ∀ index ∈ indexes, index.toNat < 1 <<< picture.header.bitDepth
  letter_lt : picture.palette.length ≤ 62 → ∀ index ∈ indexes, index.toNat < 62

end Picture

/-! ## Chunks of an image -/

theorem dataOf_append (type : Octets) (chunks others : List Chunk) :
    dataOf type (chunks ++ others) = dataOf type chunks ++ dataOf type others := by
  simp [dataOf]

theorem dataOf_cons (type : Octets) (chunk : Chunk) (chunks : List Chunk) :
    dataOf type (chunk :: chunks) =
      (if chunk.type = type then chunk.data else []) ++ dataOf type chunks := by
  by_cases h : chunk.type = type <;> simp [dataOf, h]

theorem dataOf_optionalChunk (type other : Octets) (data : Option Octets) :
    dataOf type (optionalChunk other data) = if other = type then data.getD [] else [] := by
  cases data <;> by_cases h : other = type <;> simp [dataOf, optionalChunk, h]

theorem dataOf_dataPlan (type raw : Octets) :
    dataOf type (dataPlan raw).chunks = if dataType = type then Zlib.compress raw else [] := by
  have hall := Octets.flatten_pieces (dataLimit - 1) (Zlib.compress raw)
  rw [List.flatten_eq_flatMap] at hall
  by_cases h : dataType = type
  · rw [if_pos h, dataOf, dataPlan, List.filter_eq_self.2 (by simp [h]), List.flatMap_map]
    exact hall
  · rw [if_neg h, dataOf, dataPlan, List.filter_eq_nil_iff.2 (by simp [h])]
    rfl

/-- All chunks of an image: those before the pixel data, the ones that hold the scanlines after
compression, and the last one. -/
def allChunks (header : Header) (gamma intent chromaticities palette : Option Octets)
    (raw : Octets) : List Chunk :=
  infoChunks header gamma intent chromaticities palette ++ (dataPlan raw).chunks ++
    [Writer.lastChunk]

variable {header : Header} {gamma intent chromaticities palette : Option Octets} {raw : Octets}

theorem dataOf_allChunks (type : Octets) :
    dataOf type (allChunks header gamma intent chromaticities palette raw) =
      (if headerType = type then header.octets else []) ++
      ((if gammaType = type then gamma.getD [] else []) ++
      ((if intentType = type then intent.getD [] else []) ++
      ((if chromaticityType = type then chromaticities.getD [] else []) ++
      (if paletteType = type then palette.getD [] else [])))) ++
      (if dataType = type then Zlib.compress raw else []) := by
  rw [allChunks, infoChunks, dataOf_append, dataOf_append, dataOf_cons, dataOf_append,
    dataOf_append, dataOf_append, dataOf_optionalChunk, dataOf_optionalChunk,
    dataOf_optionalChunk, dataOf_optionalChunk, dataOf_dataPlan, dataOf_cons, Writer.lastChunk,
    ite_self]
  simp [dataOf]

/-- The chunks of an image show what its header, its palette and its pixel data do. -/
theorem ofChunks?_allChunks (h : header.Legal) :
    ofChunks? (allChunks header gamma intent chromaticities palette raw) =
      ofData? header (palette.getD []) (Zlib.compress raw) := by
  have hpalette : dataOf paletteType (allChunks header gamma intent chromaticities palette raw) =
      palette.getD [] := by
    rw [dataOf_allChunks]
    simp +decide
  have hdata : dataOf dataType (allChunks header gamma intent chromaticities palette raw) =
      Zlib.compress raw := by
    rw [dataOf_allChunks]
    simp +decide
  have hhead : (allChunks header gamma intent chromaticities palette raw).head? =
      some ⟨headerType, header.octets⟩ := rfl
  have hlast : (allChunks header gamma intent chromaticities palette raw).getLast? =
      some ⟨endType, []⟩ := by
    rw [allChunks, List.getLast?_concat]
    rfl
  rw [ofChunks?, hhead, hlast, hpalette, hdata]
  simp [Header.ofOctets?_octets h]

/-! ## Palettes that are read back -/

/-- The colors of entries as octets. -/
def colorsOf (palette : List Rgb) : List (UInt8 × UInt8 × UInt8) :=
  palette.map fun entry =>
    (UInt8.ofNat entry.red.toNat, UInt8.ofNat entry.green.toNat, UInt8.ofNat entry.blue.toNat)

theorem paletteOctets_eq (palette : List Rgb) :
    paletteOctets palette = colorOctets (colorsOf palette) := by
  rw [paletteOctets, colorOctets, colorsOf, List.flatMap_map]
  rfl

section

variable {image : Image} {indexes : Octets} (hof : header.Of image)
  (htype : header.type = .indexed)

/-- Indexes have at most eight bits. -/
theorem bitDepth_of_indexed (hlegal : header.Legal) (htype : header.type = .indexed) :
    1 ≤ header.bitDepth ∧ header.bitDepth ≤ 8 := by
  have hdepths : ∀ depth ∈ ColorType.indexed.bitDepths, 1 ≤ depth ∧ depth ≤ 8 := by decide
  have := hdepths _ (htype ▸ hlegal.bitDepth_mem)
  omega

/-- An index takes an octet. -/
theorem sampleOctets_of_indexed (hlegal : header.Legal) (htype : header.type = .indexed) :
    header.sampleOctets = 1 := by
  have := bitDepth_of_indexed hlegal htype
  rw [Header.sampleOctets]
  omega

include hof htype

theorem length_of_indexed (hcomplete : IsComplete image indexes) :
    indexes.length = header.height * header.width := by
  have hsize := hcomplete.length_eq
  have hchannels : ((ColorType.indexed.channels * 1 : Nat) : Int) = 1 := rfl
  rw [hof.pixelSize_eq, hof.width, hof.height, sampleOctets_of_indexed hof.legal htype, htype,
    hchannels, Int.mul_one, ← Int.natCast_mul, Int.ofNat_inj] at hsize
  rw [hsize, Nat.mul_comm]

/-- Indexes that are stored fit the bit depth; those of eight bits do in any case. -/
theorem lt_of_indexed (hcomplete : IsComplete image indexes)
    (hraw : imageData image indexes = .ok raw) :
    ∀ index ∈ indexes, index.toNat < 1 <<< header.bitDepth := by
  intro index hindex
  obtain ⟨-, hle⟩ := bitDepth_of_indexed hof.legal htype
  by_cases hwhole : image.bitDepth < 8
  · have hfit := (hof.imageData_eq_ok_iff hcomplete.length_eq).1 ⟨raw, hraw⟩ hwhole index hindex
    rwa [hof.bitDepth, Int.toNat_natCast] at hfit
  · rw [hof.bitDepth] at hwhole
    obtain hfull : header.bitDepth = 8 := by omega
    rw [hfull]
    exact index.toNat_lt

/-- The chunks of an image with a palette show indexes, as the pixel data gives them. -/
theorem showsIndexes_of_imageData (gamma intent chromaticities : Option Octets)
    (hne : image.palette ≠ []) (hcomplete : IsComplete image indexes)
    (hraw : imageData image indexes = .ok raw)
    (hletter : image.palette.length ≤ 62 → ∀ index ∈ indexes, index.toNat < 62) :
    ∃ picture : Picture, picture.palette = colorsOf image.palette ∧
      picture.ShowsIndexes indexes ∧
      ofChunks? (allChunks header gamma intent chromaticities (some (paletteOctets image.palette))
        raw) = some picture := by
  obtain ⟨-, -, hpalette, -⟩ := checkHeader_eq_ok hof.checked
  have hlt := lt_of_indexed hof htype hcomplete hraw
  -- The palette has no part in reading the scanlines, so they are read with a full one.
  have hfull : (List.replicate (1 <<< header.bitDepth) ((0, 0, 0) : UInt8 × UInt8 × UInt8)).length =
      1 <<< header.bitDepth := List.length_replicate
  have hlegal := Picture.legal_ofIndexes hof.legal htype hfull
    (length_of_indexed hof htype hcomplete) hlt
  obtain ⟨found, hfound, hread⟩ := Picture.exists_imageData hlegal hof
  rw [Picture.data_ofIndexes (sampleOctets_of_indexed hof.legal htype), hraw] at hfound
  obtain rfl := Except.ok.inj hfound
  obtain ⟨pixels, hpixels, hrows⟩ := Option.bind_eq_some_iff.1 hread
  refine ⟨Picture.ofIndexes header (colorsOf image.palette) indexes, rfl, ⟨htype, ?_, ?_, ?_,
    hlt, ?_⟩, ?_⟩
  · simpa [Picture.ofIndexes, colorsOf] using hne
  · change (colorsOf image.palette).length ≤ 1 <<< header.bitDepth
    have hle := hpalette htype
    rwa [hof.bitDepth, Int.toNat_natCast, ← List.length_map] at hle
  · exact Picture.flatten_rows_ofIndexes
  · intro hle
    refine hletter ?_
    change (colorsOf image.palette).length ≤ 62 at hle
    rwa [colorsOf, List.length_map] at hle
  · rw [ofChunks?_allChunks hof.legal, Option.getD_some, paletteOctets_eq]
    have hpixels : readScanlines header header.order raw = some pixels := hpixels
    have hrows : arrange header pixels =
        some (Picture.ofIndexes header (colorsOf image.palette) indexes).rows := hrows
    simp [ofData?, readPalette_colorOctets, Zlib.decompress?_compress, hpixels, hrows]
    rfl

end

end Png

/-! ## Runs -/

namespace Compilation

open Writer

-- Statements about writing a chunk are not to be unfolded into running the writer.
attribute [local irreducible] Writer.writeChunk

/-- Pixels are the only block of their kind: behind all others, one block gives all of them. -/
theorem eq_pixels_of_isStart {indexed : Bool} {front rest : List Content} {block : Content}
    (hstart : IsStart indexed ((front ++ rest).map Content.keyword))
    (hrest : ∀ block ∈ rest, block.IsPixels) (hmem : block ∈ rest)
    (hpixels : block.keyword = .pixels) : rest = [block] := by
  match rest, hrest, hmem with
  | [only], _, hmem => rw [List.mem_singleton.1 hmem]
  | first :: second :: more, hrest, hmem =>
    have hother {other : Content} (hlater : other ∈ second :: more) :
        first.keyword = .data ∧ other.keyword = .data := by
      rw [List.map_append, List.map_cons] at hstart
      exact hstart.pixels_end (hrest first List.mem_cons_self) (List.mem_map_of_mem hlater)
    rcases List.mem_cons.1 hmem with rfl | hmem
    · have := (hother List.mem_cons_self).1
      rw [hpixels] at this
      cases this
    · have := (hother hmem).2
      rw [hpixels] at this
      cases this

/-- A run that comes to a good end with a block of pixels has written all chunks of the image, and
its pixel data are the octets that the block spells. -/
theorem pixels_of_run {source : Source} {chars : List Char}
    (hahead : source.ahead = chars.map some) (room : Option (Nat × String))
    (flushFault : Option String) :
    Outcome (fun _ after => after.progress.has .pixels = true →
        ∃ blocks digits octets header raw gamma intent chromaticities palette,
          ConsistsOf chars blocks ∧ .pixels digits ∈ blocks ∧
          Segment.decode (alphabet after.image) (String.ofList digits) = .ok octets ∧
          IsComplete after.image octets ∧ imageData after.image octets = .ok raw ∧
          header.Of after.image ∧ after.image.given.palette = after.image.color.palette ∧
          Holds after.image.given.palette (· = paletteOctets after.image.palette) palette ∧
          Datastream (allChunks header gamma intent chromaticities palette raw)
            after.writer.sink.octets)
      (fun _ _ => True) (run (.ofSource source { room, flushFault })) := by
  have hresumes : Lexer.Resumes chars (Lexer.ofSource source) := Lexer.resumes_of_ahead hahead rfl
  have htells := outcome_run_tells ⟨chars, hresumes⟩ { room, flushFault }
  have hcomplete := (outcome_run_complete source { room, flushFault }).mono_fault
    fun _ _ _ => trivial
  refine ((htells.and hcomplete).and (outcome_run (.start source _))).mono ?_ fun _ _ _ => trivial
  rintro _ after ⟨⟨⟨blocks, before, ⟨⟨pieces, hspelled, hshows⟩, -, hprogress, hwritten⟩, hlast⟩,
    hgiven, -, header, -, -, -, ⟨hof, -, -, -⟩, -⟩, names, indexed, hcompiled, -⟩ hpixels
  have hwritten : Written { room, flushFault } after.image blocks before := hwritten
  have hprogress : after.progress.Matches (blocks.map Content.keyword) := hprogress
  have hnames : blocks.map Content.keyword = names :=
    List.reverse_inj.1 (hprogress.seen_eq.symm.trans hcompiled.ordered.progress.seen_eq)
  have hstart := hcompiled.ordered.isStart
  rw [List.nil_append, ← hnames] at hstart
  rw [hprogress.has_eq, decide_eq_true_iff] at hpixels
  obtain ⟨block, hmem, hkeyword⟩ := List.mem_map.1 hpixels
  have hconsists : ConsistsOf chars blocks := ⟨pieces, hresumes.renders hshows, hspelled⟩
  generalize after.image = image at hwritten hof hgiven ⊢
  cases hwritten with
  | waiting hnone => exact absurd (.inr hkeyword) (hnone block hmem)
  | @begun front rest data begun _ hfront hne hinfo hdata hadds =>
    have hmem : block ∈ rest := (List.mem_append.1 hmem).resolve_left fun hmem =>
      hfront block hmem (.inr hkeyword)
    obtain rfl := eq_pixels_of_isStart hstart (isPixels_of_gives hdata) hmem hkeyword
    cases hdata with
    | @cons _ _ chunks none hgives hnone =>
    cases hnone
    cases hgives with
    | data => cases hkeyword
    | @pixels digits octets raw hdecode hlength hraw =>
    obtain ⟨hbounded, hheight, hwidth⟩ := bounded_of_header hof
    have houtcome := @outcome_writeInfo { room, flushFault } image hbounded hheight hwidth
    rw [hinfo] at houtcome
    obtain ⟨found, hbegun⟩ := houtcome
    rw [List.append_nil] at hadds
    have hall := hbegun.adds (fun _ hmem => dataChunk_of_mem_dataPlan hmem) hadds
    obtain ⟨⟨hwrote, hframe, hstart⟩, -⟩ :=
      started_of_adds hall hlast (chunks_dataPlan_ne_nil raw)
    obtain ⟨gamma, intent, chromaticities, palette, hinfo, -, -, -, hpalette⟩ :=
      chunks_infoPlan hbegun.of hbegun.result
    rw [List.nil_append, hinfo] at hwrote hframe hstart
    refine ⟨_, digits, octets, found, raw, gamma, intent, chromaticities, palette, hconsists,
      List.mem_append_right _ hmem, hdecode, hbegun.of.isComplete hlength, hraw, hbegun.of, hgiven,
      hpalette, ⟨?_, hframe, hstart⟩⟩
    rw [Sink.octets, hwrote.written]
    simp [List.flatMap, allChunks]

end Compilation

/-- A run on a source with a palette and a block of pixels, if it comes to a good end, has written a
picture that shows the octets that the block spells as indexes. They fit the bit depth, as does the
number of entries, and are letters or digits if these are enough for the entries; they need not be
indexes of entries. -/
theorem compile_indexed {source : Source} {chars : List Char}
    (hahead : source.ahead = chars.map some) (room : Option (Nat × String))
    (flushFault : Option String) (hok : (compile source { room, flushFault }).1 = .ok ())
    (hpalette : (compile source { room, flushFault }).2.image.color.palette = true)
    (hpixels : (compile source { room, flushFault }).2.progress.has .pixels = true) :
    ∃ blocks digits indexes picture, ConsistsOf chars blocks ∧ .pixels digits ∈ blocks ∧
      Segment.decode (Compilation.alphabet (compile source { room, flushFault }).2.image)
        (String.ofList digits) = .ok indexes ∧
      decode? (compile source { room, flushFault }).2.writer.sink.octets = some picture ∧
      picture.palette = colorsOf (compile source { room, flushFault }).2.image.palette ∧
      picture.ShowsIndexes indexes := by
  have hrun := Compilation.pixels_of_run hahead room flushFault
  unfold compile at hok hpalette hpixels ⊢
  cases hresult : Compilation.run (.ofSource source { room, flushFault }) with
  | error failure after =>
    rw [hresult] at hok
    cases hok
  | ok _ after =>
    rw [hresult] at hrun hpalette hpixels
    obtain ⟨blocks, digits, indexes, header, raw, gamma, intent, chromaticities, palette, hconsists,
      hmem, hdecode, hcomplete, hraw, hof, hgiven, ⟨hsome, hentries⟩, hstream⟩ := hrun hpixels
    obtain ⟨hcolor, -, -, hne⟩ := checkHeader_eq_ok hof.checked
    have hpalette : after.image.color.palette = true := hpalette
    rw [hgiven, hpalette] at hsome
    obtain ⟨found, rfl⟩ := Option.isSome_iff_exists.1 hsome
    obtain rfl := hentries found rfl
    have hletter : after.image.palette.length ≤ 62 → ∀ index ∈ indexes, index.toNat < 62 := by
      intro hle
      rw [Compilation.alphabet, if_pos (.inr ⟨hpalette, hle⟩)] at hdecode
      exact Segment.has_of_decode hdecode
    obtain ⟨picture, hcolors, hshows, hpicture⟩ := showsIndexes_of_imageData hof
      ((palette_iff_of_colorType? hcolor).1 hpalette) gamma intent chromaticities
      (hne (hgiven.trans hpalette)) hcomplete hraw hletter
    refine ⟨blocks, digits, indexes, picture, hconsists, hmem, hdecode, ?_, hcolors, hshows⟩
    rw [decode?, Picture.chunks?_of_datastream hstream]
    exact hpicture

/-- A source of six interlaced pixels of two bits, with a palette of three entries. -/
def threeColors : List Char :=
  ("IHDR\x7bwidth 3 height 2 bitdepth 2 using palette with interlace\x7d" ++
    "PLTE\x7b(0,0,0)(255,0,0)(0,0,255)\x7dIMAGE\x7b012\n210\x7d").toList

theorem compile_indexed_threeColors :
    (compile (.ofChars threeColors) {}).1 = .ok () ∧
    (compile (.ofChars threeColors) {}).2.image.color.palette = true ∧
    (compile (.ofChars threeColors) {}).2.progress.has .pixels = true ∧
    ∃ blocks digits indexes picture, ConsistsOf threeColors blocks ∧ .pixels digits ∈ blocks ∧
      Segment.decode (Compilation.alphabet (compile (.ofChars threeColors) {}).2.image)
        (String.ofList digits) = .ok indexes ∧
      decode? (compile (.ofChars threeColors) {}).2.writer.sink.octets = some picture ∧
      picture.palette = colorsOf (compile (.ofChars threeColors) {}).2.image.palette ∧
      picture.ShowsIndexes indexes := by
  have hrun : (compile (.ofChars threeColors) {}).1 = .ok () ∧
      (compile (.ofChars threeColors) {}).2.image.color.palette = true ∧
      (compile (.ofChars threeColors) {}).2.progress.has .pixels = true := by
    decide +kernel
  obtain ⟨hok, hpalette, hpixels⟩ := hrun
  exact ⟨hok, hpalette, hpixels, compile_indexed rfl none none hok hpalette hpixels⟩

/-- A source of one pixel, with a palette of one entry. -/
def onePixel (index : Char) : List Char :=
  "IHDR\x7bwidth 1 height 1 using palette\x7dPLTE\x7b(0,0,0)\x7dIMAGE\x7b".toList ++ [index, '\x7d']

/-- An index beyond the palette is written: the second entry of a palette that has one. -/
theorem compile_dangling :
    (compile (.ofChars (onePixel '1')) {}).1 = .ok () ∧
      (compile (.ofChars (onePixel '1')) {}).2.image.color.palette = true ∧
      (compile (.ofChars (onePixel '1')) {}).2.progress.has .pixels = true ∧
      ∃ picture, decode? (compile (.ofChars (onePixel '1')) {}).2.writer.sink.octets =
          some picture ∧
        ∃ index ∈ picture.rows.flatten.flatten, picture.palette.length ≤ index :=
  ⟨by decide +kernel, by decide +kernel, by decide +kernel,
    ⟨⟨1, 1, 8, .indexed, .none⟩, [(0, 0, 0)], [[[1]]]⟩, by decide +kernel, 1, by decide, by decide⟩

end ScriptedPng
