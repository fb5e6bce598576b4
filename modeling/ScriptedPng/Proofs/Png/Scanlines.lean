import Mathlib.Data.List.Basic
import ScriptedPng.Proofs.Bits
import ScriptedPng.Proofs.Png.Interlacing
import ScriptedPng.Proofs.Png.Progress
import ScriptedPng.Proofs.Png.Rows

/-!
# Scanlines of pictures

The pixel data of a picture becomes scanlines that give its pixels back, whatever the size of a
sample and the order of the pixels are.

## Main definitions

* `Header.Fits` — a pixel can be stored under a header.
* `Header.pixelOctets`, `Picture.data` — the pixel data of a pixel, and of a picture.

## Main statements

* `Png.packRow_pixels` — a scanline gives back the pixels of its row.
* `Png.scanlines_eq` — scanlines are those of the positions in order.
* `Png.readScanlines_packRows` — the pixels at all positions are read back.
* `Picture.arrange_pixelAt` — pixels at all positions make up the picture.
-/

namespace ScriptedPng.Png

/-! ## Pieces of one length -/

/-- Pieces of one length, put together. -/
theorem length_flatMap_eq {α β : Type} {f : α → List β} {items : List α} {n : Nat}
    (h : ∀ item ∈ items, (f item).length = n) : (items.flatMap f).length = items.length * n := by
  rw [List.length_flatMap, List.map_congr_left h, List.map_const', List.sum_replicate_nat]

/-! ## Pixel data -/

/-- A sample takes so many octets of pixel data. -/
def Header.sampleOctets (header : Header) : Nat := (header.bitDepth + 7) / 8

/-- The pixel data of a pixel. -/
def Header.pixelOctets (header : Header) (pixel : Pixel) : Octets :=
  pixel.flatMap (Octets.big header.sampleOctets)

/-- The pixel data of a picture, pixel by pixel and row by row. -/
def Picture.data (picture : Picture) : Octets :=
  picture.rows.flatMap fun row => row.flatMap picture.header.pixelOctets

/-- The pixel has a sample for each channel, and all of them fit the bit depth. -/
structure Header.Fits (header : Header) (pixel : Pixel) : Prop where
  length_eq : pixel.length = header.type.channels
  sample_lt : ∀ sample ∈ pixel, sample < 1 <<< header.bitDepth

variable {header : Header} {image : Image}

theorem mem_of_mem_bitDepths {type : ColorType} {depth : Nat}
    (h : (depth : Int) ∈ type.bitDepths) : depth ∈ [1, 2, 4, 8, 16] := by
  cases type <;>
    simp only [ColorType.bitDepths, List.mem_cons, List.not_mem_nil, or_false] at h ⊢ <;> omega

theorem Header.length_pixelOctets {pixel : Pixel} (h : header.Fits pixel) :
    (header.pixelOctets pixel).length = header.type.channels * header.sampleOctets := by
  rw [← h.length_eq, pixelOctets]
  exact length_flatMap_eq fun sample _ => Octets.length_big header.sampleOctets sample

/-- A pixel takes the octets that the image says. -/
theorem Header.Of.pixelSize_eq (h : header.Of image) :
    image.pixelSize = (header.type.channels * header.sampleOctets : Nat) := by
  obtain ⟨hcolor, -⟩ := checkHeader_eq_ok h.checked
  have hmem := h.legal.bitDepth_mem
  rw [Image.pixelSize, Image.sampleSize, h.bitDepth, sampleOctets]
  revert hcolor hmem
  generalize header.bitDepth = depth
  obtain ⟨palette, color, alpha⟩ := image.color
  cases header.type <;> cases palette <;> cases color <;> cases alpha <;>
    simp [ColorFlags.colorType?, ColorFlags.channels, ColorType.channels, ColorType.bitDepths] <;>
    omega

/-! ## Packing -/

theorem readSamples_flatMap {depth : Nat} {samples : List Nat}
    (h : ∀ sample ∈ samples, sample < 1 <<< depth) (rest : List Bool) :
    readSamples depth samples.length (samples.flatMap (Bits.ofNat depth) ++ rest) = samples := by
  induction samples with
  | nil => rfl
  | cons sample samples ih =>
    have hlength := Bits.length_ofNat depth sample
    rw [List.flatMap_cons, List.append_assoc, List.length_cons, readSamples,
      List.take_left' hlength, List.drop_left' hlength,
      Bits.toNat_ofNat (h sample List.mem_cons_self),
      ih fun sample hmem => h sample (List.mem_cons_of_mem _ hmem)]

theorem length_flatMap_ofNat (depth : Nat) (samples : List Nat) :
    (samples.flatMap (Bits.ofNat depth)).length = samples.length * depth :=
  length_flatMap_eq fun sample _ => Bits.length_ofNat depth sample

/-- The bits of pixels give the pixels back, whatever follows. -/
theorem readPixels_flatMap {pixels : List Pixel} (h : ∀ pixel ∈ pixels, header.Fits pixel)
    (rest : List Bool) :
    readPixels header.bitDepth header.type.channels pixels.length
      (pixels.flatten.flatMap (Bits.ofNat header.bitDepth) ++ rest) = pixels := by
  induction pixels with
  | nil => rfl
  | cons pixel pixels ih =>
    have hfits := h pixel List.mem_cons_self
    have hlength : (pixel.flatMap (Bits.ofNat header.bitDepth)).length =
        header.type.channels * header.bitDepth := by
      rw [length_flatMap_ofNat, hfits.length_eq]
    rw [List.flatten_cons, List.flatMap_append, List.append_assoc, List.length_cons, readPixels,
      List.drop_left' hlength, ih fun pixel hmem => h pixel (List.mem_cons_of_mem _ hmem),
      ← hfits.length_eq, readSamples_flatMap hfits.sample_lt]

/-- The bits of samples that take whole octets. -/
theorem ofOctets_samples (k : Nat) (samples : List Nat) :
    Bits.ofOctets (samples.flatMap (Octets.big k)) = samples.flatMap (Bits.ofNat (8 * k)) := by
  induction samples with
  | nil => rfl
  | cons sample samples ih =>
    rw [List.flatMap_cons, List.flatMap_cons, Bits.ofOctets_append, Bits.ofOctets_big, ih]

theorem flatMap_big_one (samples : List Nat) :
    samples.flatMap (Octets.big 1) = samples.map UInt8.ofNat := by
  induction samples with
  | nil => rfl
  | cons sample samples ih =>
    rw [List.flatMap_cons, ih]
    simp [Octets.big, Nat.pow]

/-- A row is stored in octets with the bits of its samples, the last one filled up. -/
theorem packRow_samples {depth : Nat} (hdepth : depth ∈ [1, 2, 4, 8, 16]) {samples : List Nat}
    (h : ∀ sample ∈ samples, sample < 1 <<< depth) :
    ∃ line padding, packRow depth (samples.flatMap (Octets.big ((depth + 7) / 8))) = .ok line ∧
      Bits.ofOctets line = samples.flatMap (Bits.ofNat depth) ++ padding ∧
      line.length = (samples.length * depth + 7) / 8 := by
  by_cases hsmall : depth < 8
  · have hsmalls : ∀ depth ∈ [1, 2, 4, 8, 16], depth < 8 →
        (depth + 7) / 8 = 1 ∧ 1 <<< depth ≤ 256 ∧ 0 < depth := by
      decide
    obtain ⟨hone, hbig, hpos⟩ := hsmalls depth hdepth hsmall
    have hsample : ∀ sample ∈ samples, (UInt8.ofNat sample).toNat = sample := fun sample hmem => by
      have := h sample hmem
      rw [UInt8.toNat_ofNat']
      exact Nat.mod_eq_of_lt (by omega)
    have hbits : (samples.map UInt8.ofNat).flatMap (fun octet => Bits.ofNat depth octet.toNat) =
        samples.flatMap (Bits.ofNat depth) := by
      rw [List.flatMap_map]
      exact List.flatMap_congr fun sample hmem => by rw [hsample sample hmem]
    have hfit : ∀ sample ∈ samples.map UInt8.ofNat, sample.toNat < 1 <<< depth := by
      intro _ hoctet
      obtain ⟨sample, hmem, rfl⟩ := List.mem_map.1 hoctet
      rw [hsample sample hmem]
      exact h sample hmem
    refine ⟨_, _, ?_, Bits.ofOctets_toOctets _,
      by rw [Bits.length_toOctets, length_flatMap_ofNat]⟩
    rw [hone, flatMap_big_one]
    exact (packRow_eq_ok_iff hpos hsmall).2 ⟨hfit, by rw [hbits]⟩
  · obtain ⟨k, rfl⟩ : ∃ k, depth = 8 * k := by
      simp only [List.mem_cons, List.not_mem_nil, or_false] at hdepth
      exact ⟨depth / 8, by omega⟩
    have hwhole : (8 * k + 7) / 8 = k := by omega
    rw [hwhole]
    refine ⟨samples.flatMap (Octets.big k), [], ?_,
      by rw [ofOctets_samples, List.append_nil], ?_⟩
    · rw [packRow, if_pos (by omega)]
    · rw [length_flatMap_eq fun sample _ => Octets.length_big k sample, Nat.mul_comm 8,
        ← Nat.mul_assoc]
      omega

/-- A row of pixels is stored in a scanline, which gives the pixels back. -/
theorem packRow_pixels (hlegal : header.Legal) {pixels : List Pixel}
    (h : ∀ pixel ∈ pixels, header.Fits pixel) :
    ∃ line, packRow header.bitDepth (pixels.flatMap header.pixelOctets) = .ok line ∧
      line.length = header.scanlineSize pixels.length ∧
      readPixels header.bitDepth header.type.channels pixels.length (Bits.ofOctets line) =
        pixels := by
  have hsample : ∀ sample ∈ pixels.flatten, sample < 1 <<< header.bitDepth := by
    intro sample hmem
    obtain ⟨pixel, hpixel, hsample⟩ := List.mem_flatten.1 hmem
    exact (h pixel hpixel).sample_lt sample hsample
  have hlength : pixels.flatten.length = pixels.length * header.type.channels := by
    rw [List.flatten_eq_flatMap]
    exact length_flatMap_eq fun pixel hmem => (h pixel hmem).length_eq
  have hoctets : pixels.flatMap header.pixelOctets =
      pixels.flatten.flatMap (Octets.big header.sampleOctets) := by
    rw [List.flatten_eq_flatMap, List.flatMap_assoc]
    rfl
  obtain ⟨line, padding, hpack, hbits, hsize⟩ :=
    packRow_samples (mem_of_mem_bitDepths hlegal.bitDepth_mem) hsample
  refine ⟨line, ?_, by rw [hsize, hlength, Header.scanlineSize], ?_⟩
  · rw [hoctets]
    exact hpack
  · rw [hbits, readPixels_flatMap h]

/-! ## Scanlines in order -/

/-- The pixel data of the pixels at some positions. -/
def octetsAt (header : Header) (pixelAt : Position → Pixel) (positions : List Position) : Octets :=
  (positions.map pixelAt).flatMap header.pixelOctets

/-- Scanlines for positions in order are read back as the pixels at all of them. -/
theorem readScanlines_packRows (hlegal : header.Legal) {pixelAt : Position → Pixel}
    {order : List (List Position)}
    (h : ∀ position ∈ order.flatten, header.Fits (pixelAt position)) :
    ∃ lines, (order.map (octetsAt header pixelAt)).mapM (packRow header.bitDepth) = .ok lines ∧
      readScanlines header order (lines.flatMap (unfiltered :: ·)) =
        some (order.flatten.map fun position => (position, pixelAt position)) := by
  induction order with
  | nil => exact ⟨[], rfl, rfl⟩
  | cons positions order ih =>
    have hfirst : ∀ pixel ∈ positions.map pixelAt, header.Fits pixel := by
      intro pixel hmem
      obtain ⟨position, hposition, rfl⟩ := List.mem_map.1 hmem
      exact h position (List.mem_append_left _ hposition)
    obtain ⟨line, hpack, hlength, hread⟩ := packRow_pixels hlegal hfirst
    obtain ⟨lines, hrest, hall⟩ := ih fun position hmem => h position (List.mem_append_right _ hmem)
    rw [List.length_map] at hlength hread
    refine ⟨line :: lines, ?_, ?_⟩
    · rw [List.map_cons, List.mapM_cons, octetsAt, hpack, hrest]
      rfl
    · have hcondition : unfiltered = 0 ∧ header.scanlineSize positions.length ≤
          (line ++ lines.flatMap (unfiltered :: ·)).length := by
        rw [List.length_append, hlength]
        exact ⟨rfl, Nat.le_add_right _ _⟩
      rw [List.flatMap_cons, List.cons_append]
      simp only [readScanlines, if_pos hcondition, List.take_left' hlength,
        List.drop_left' hlength, hall, hread, Option.map_some, List.flatten_cons, List.map_append,
        List.map_prod_left_eq_zip]

/-! ## Scanlines of pictures -/

namespace Picture

/-- A row of the picture. -/
def rowAt (picture : Picture) (row : Nat) : List Pixel :=
  picture.rows[row]?.getD []

/-- The pixel at a position of the picture. -/
def pixelAt (picture : Picture) (position : Position) : Pixel :=
  (picture.rowAt position.1)[position.2]?.getD []

variable {picture : Picture}

theorem eq_map_range {α : Type} {items : List α} {n : Nat} (h : items.length = n) (default : α) :
    items = (List.range n).map fun i => items[i]?.getD default := by
  refine List.ext_getElem (by simpa using h) ?_
  intro i hi hi'
  simp [List.getElem?_eq_getElem hi]

theorem rowAt_mem (h : picture.Legal) {row : Nat} (hrow : row < picture.header.height) :
    picture.rowAt row ∈ picture.rows := by
  have hlt : row < picture.rows.length := h.length_rows ▸ hrow
  rw [rowAt, List.getElem?_eq_getElem hlt, Option.getD_some]
  exact List.getElem_mem hlt

theorem pixelAt_mem (h : picture.Legal) {row column : Nat} (hrow : row < picture.header.height)
    (hcolumn : column < picture.header.width) :
    picture.pixelAt (row, column) ∈ picture.rowAt row := by
  have hlt : column < (picture.rowAt row).length :=
    h.length_row _ (rowAt_mem h hrow) ▸ hcolumn
  rw [pixelAt, List.getElem?_eq_getElem hlt, Option.getD_some]
  exact List.getElem_mem hlt

/-- The pixels of a legal picture fit its header. -/
theorem fits_pixelAt (h : picture.Legal) {row column : Nat} (hrow : row < picture.header.height)
    (hcolumn : column < picture.header.width) :
    picture.header.Fits (picture.pixelAt (row, column)) :=
  have hmem := rowAt_mem h hrow
  have hpixel := pixelAt_mem h hrow hcolumn
  ⟨h.length_pixel _ hmem _ hpixel, h.sample_lt _ hmem _ hpixel⟩

theorem rowAt_eq (h : picture.Legal) {row : Nat} (hrow : row < picture.header.height) :
    picture.rowAt row =
      (List.range picture.header.width).map fun column => picture.pixelAt (row, column) :=
  eq_map_range (h.length_row _ (rowAt_mem h hrow)) []

theorem rows_eq (h : picture.Legal) :
    picture.rows = (List.range picture.header.height).map picture.rowAt :=
  eq_map_range h.length_rows []

/-- The pixel data of a row. -/
theorem length_rowOctets (h : picture.Legal) {row : List Pixel} (hrow : row ∈ picture.rows) :
    (row.flatMap picture.header.pixelOctets).length =
      picture.header.width * (picture.header.type.channels * picture.header.sampleOctets) := by
  rw [← h.length_row row hrow]
  exact length_flatMap_eq fun pixel hmem => Header.length_pixelOctets
    ⟨h.length_pixel row hrow pixel hmem, h.sample_lt row hrow pixel hmem⟩

/-- All pixels of the picture are in its pixel data. -/
theorem length_data (h : picture.Legal) : picture.data.length = picture.header.height *
    (picture.header.width * (picture.header.type.channels * picture.header.sampleOctets)) := by
  rw [← h.length_rows, data]
  exact length_flatMap_eq fun row hrow => length_rowOctets h hrow

theorem pixelSize_pos (h : picture.Legal) :
    0 < picture.header.type.channels * picture.header.sampleOctets := by
  have hdepth := (Header.bitDepth_le h.header.bitDepth_mem).1
  refine Nat.mul_pos ?_ (by rw [Header.sampleOctets]; omega)
  cases picture.header.type <;> decide

/-- The rows of pixel data are those of the picture. -/
theorem rows_data (h : picture.Legal) {image : Image} (hof : picture.header.Of image) :
    Png.rows image picture.data =
      .ok (picture.rows.map fun row => row.flatMap picture.header.pixelOctets) := by
  have hsize : image.width * image.pixelSize = (picture.header.width *
      (picture.header.type.channels * picture.header.sampleOctets) : Nat) := by
    rw [hof.width, hof.pixelSize_eq, ← Int.natCast_mul]
  have hpos := Nat.mul_pos h.header.width_pos (pixelSize_pos h)
  simp only [Png.rows, hsize]
  rw [if_neg (by omega), if_neg (by omega), Int.toNat_natCast, data, List.flatMap,
    Octets.pieces_flatten]
  rintro octets hmem
  obtain ⟨row, hrow, rfl⟩ := List.mem_map.1 hmem
  rw [length_rowOctets h hrow]
  omega

/-- A pass takes the pixels at its positions. -/
theorem selectRow_eq (h : picture.Legal) {image : Image} (hof : picture.header.Of image)
    (pass : Pass) {row : Nat} (hrow : row < picture.header.height) :
    pass.selectRow image.pixelSize.toNat
        ((picture.rowAt row).flatMap picture.header.pixelOctets) =
      octetsAt picture.header picture.pixelAt
        ((steps pass.x pass.dx picture.header.width).map (row, ·)) := by
  have hmem := rowAt_mem h hrow
  have hpieces : Octets.pieces (image.pixelSize.toNat - 1)
      ((picture.rowAt row).flatMap picture.header.pixelOctets) =
        (picture.rowAt row).map picture.header.pixelOctets := by
    rw [hof.pixelSize_eq, Int.toNat_natCast, List.flatMap, Octets.pieces_flatten]
    intro octets hoctets
    obtain ⟨pixel, hpixel, rfl⟩ := List.mem_map.1 hoctets
    have hpos := pixelSize_pos h
    rw [Header.length_pixelOctets
      ⟨h.length_pixel _ hmem pixel hpixel, h.sample_lt _ hmem pixel hpixel⟩]
    omega
  have hcolumn (column : Nat) :
      ((picture.rowAt row).map picture.header.pixelOctets)[column]?.getD [] =
        picture.header.pixelOctets (picture.pixelAt (row, column)) := by
    rw [List.getElem?_map, pixelAt]
    cases (picture.rowAt row)[column]? <;> rfl
  rw [Pass.selectRow_eq_join, Pass.join, hpieces]
  simp only [List.size_toArray, List.length_map, h.length_row _ hmem, List.getElem?_toArray,
    hcolumn, octetsAt, List.flatMap_map, List.map_map]
  rfl

/-- A pass takes the rows of its positions. -/
theorem select_eq (h : picture.Legal) {image : Image} (hof : picture.header.Of image)
    (pass : Pass) :
    pass.select image
        (picture.rows.map fun row => row.flatMap picture.header.pixelOctets).toArray =
      .ok ((pass.positions picture.header.width picture.header.height).map
        (octetsAt picture.header picture.pixelAt)) := by
  have hheight : image.height.toNat = picture.header.height := by
    rw [hof.height, Int.toNat_natCast]
  have hrows : ∀ row ∈ steps pass.y pass.dy picture.header.height,
      pass.selectRow image.pixelSize.toNat
        (((picture.rows.map fun row => row.flatMap picture.header.pixelOctets)[row]?).getD []) =
      octetsAt picture.header picture.pixelAt
        ((steps pass.x pass.dx picture.header.width).map (row, ·)) := by
    intro row hmem
    have hrow := lt_of_mem_steps hmem
    have hoctets : ((picture.rows.map fun row =>
        row.flatMap picture.header.pixelOctets)[row]?).getD [] =
          (picture.rowAt row).flatMap picture.header.pixelOctets := by
      rw [List.getElem?_map, rowAt]
      cases picture.rows[row]? <;> rfl
    rw [hoctets, selectRow_eq h hof pass hrow]
  rw [Pass.select, hheight, if_pos (by simp [h.length_rows])]
  simp only [List.getElem?_toArray, Pass.positions, List.map_map]
  rw [List.map_congr_left hrows]
  rfl

/-- Lists are taken one after the other, or all at once. -/
theorem mapM_flatMap {ε α β γ : Type} (f : α → List β) (g : β → Except ε γ) (items : List α) :
    (items.flatMap f).mapM g = (items.mapM fun item => (f item).mapM g).map List.flatten := by
  induction items with
  | nil => rfl
  | cons item items ih =>
    rw [List.flatMap_cons, List.mapM_append, ih, List.mapM_cons]
    cases (f item).mapM g with
    | error fault => rfl
    | ok first => cases items.mapM fun item => (f item).mapM g <;> rfl

/-- The scanlines of the pixel data are those of the positions in order. -/
theorem scanlines_eq (h : picture.Legal) {image : Image} (hof : picture.header.Of image) :
    scanlines image picture.data = (picture.header.order.map
      (octetsAt picture.header picture.pixelAt)).mapM (packRow picture.header.bitDepth) := by
  simp only [scanlines, rows_data h hof, bind, Except.bind, hof.bitDepth]
  cases hinterlace : picture.header.interlace with
  | none =>
    rw [hof.interlace, hinterlace]
    have hrows : (picture.rows.map fun row => row.flatMap picture.header.pixelOctets) =
        picture.header.order.map (octetsAt picture.header picture.pixelAt) := by
      rw [Header.order, hinterlace, List.map_map, rows_eq h, List.map_map]
      apply List.map_congr_left
      intro row hmem
      rw [Function.comp_apply, Function.comp_apply, octetsAt, List.map_map,
        rowAt_eq h (List.mem_range.1 hmem)]
      rfl
    rw [← hrows]
  | adam7 =>
    rw [hof.interlace, hinterlace, Header.order_adam7 hinterlace hof.width hof.height]
    simp only [select_eq h hof]
    rw [List.map_flatMap, mapM_flatMap]
    split <;> rename_i hpacked <;> rw [hpacked] <;> rfl

/-! ## Putting pixels together -/

/-- The positions in order are positions of the picture. -/
theorem fits_order (h : picture.Legal) {position : Position}
    (hmem : position ∈ picture.header.order.flatten) :
    picture.header.Fits (picture.pixelAt position) := by
  obtain ⟨row, column⟩ := position
  have hbounds : row < picture.header.height ∧ column < picture.header.width :=
    Header.lt_of_mem_order hmem
  exact fits_pixelAt h hbounds.1 hbounds.2

theorem lookup_map {α β : Type} [BEq α] [LawfulBEq α] (f : α → β) {items : List α} {item : α}
    (h : item ∈ items) : (items.map fun item => (item, f item)).lookup item = some (f item) := by
  induction items with
  | nil => cases h
  | cons first items ih =>
    rw [List.map_cons, List.lookup_cons]
    by_cases heq : item = first
    · simp [heq]
    · rw [beq_false_of_ne heq]
      exact ih ((List.mem_cons.1 h).resolve_left heq)

theorem mapM_eq_some {α β : Type} {f : α → Option β} {g : α → β} {items : List α}
    (h : ∀ item ∈ items, f item = some (g item)) : items.mapM f = some (items.map g) := by
  induction items with
  | nil => rfl
  | cons item items ih =>
    rw [List.mapM_cons, h item List.mem_cons_self,
      ih fun item hmem => h item (List.mem_cons_of_mem _ hmem)]
    rfl

/-- The pixels at all positions in order make up the picture. -/
theorem arrange_order (h : picture.Legal) :
    arrange picture.header (picture.header.order.flatten.map fun position =>
      (position, picture.pixelAt position)) = some picture.rows := by
  rw [arrange, rows_eq h]
  apply mapM_eq_some
  intro row hrow
  rw [rowAt_eq h (List.mem_range.1 hrow)]
  apply mapM_eq_some
  intro column hcolumn
  exact lookup_map _ (Header.mem_order (List.mem_range.1 hrow) (List.mem_range.1 hcolumn))

/-- The pixel data of a picture can be stored, and what is stored gives the picture back. -/
theorem exists_imageData (h : picture.Legal) {image : Image} (hof : picture.header.Of image) :
    ∃ raw, imageData image picture.data = .ok raw ∧
      (readScanlines picture.header picture.header.order raw).bind (arrange picture.header) =
        some picture.rows := by
  obtain ⟨lines, hlines, hread⟩ := readScanlines_packRows h.header fun position hmem =>
    fits_order h hmem
  refine ⟨lines.flatMap (unfiltered :: ·), ?_, ?_⟩
  · rw [imageData, scanlines_eq h hof, hlines]
  · rw [hread, Option.bind_some, arrange_order h]

end Picture

end ScriptedPng.Png
