import ScriptedPng.Proofs.Png.Payload

/-!
# Pictures

A picture is what a datastream shows: its header, its palette, and its pixels row by row. It is
found by decoding the datastream, independently of how this has been written: scanlines are read
one after the other, and each one gives the pixels at some positions, which a table of the eight by
eight pixels of a tile tells if the picture is interlaced.

## Main definitions

* `Png.Picture` — a picture, with the legal ones `Picture.Legal`.
* `Header.order` — the positions that the scanlines give, in the order in which they are stored.
* `Png.readScanlines` — reads the scanlines of a picture.
* `Png.decode?` — the picture that a datastream shows.
-/

namespace ScriptedPng

/-- The samples of a pixel; an index into the palette counts as one. -/
def ColorType.channels : ColorType → Nat
  | grayscale => 1
  | rgb => 3
  | indexed => 1
  | grayscaleAlpha => 2
  | rgba => 4

namespace Png

/-- The row and the column of a pixel. -/
abbrev Position := Nat × Nat

/-- The samples of a pixel. -/
abbrev Pixel := List Nat

/-- What a datastream shows. -/
structure Picture where
  header : Header
  /-- The red, green and blue part of each entry. -/
  palette : List (UInt8 × UInt8 × UInt8)
  /-- The pixels from left to right in rows from top to bottom. -/
  rows : List (List Pixel)
deriving DecidableEq, Repr

/-- The picture has a legal header, as many pixels as this says, and samples that fit the bit depth.
Just if pixels are indexes there is a palette, which has an entry for each of them. -/
structure Picture.Legal (picture : Picture) : Prop where
  header : picture.header.Legal
  palette : if picture.header.type = .indexed then
      1 ≤ picture.palette.length ∧ picture.palette.length ≤ 1 <<< picture.header.bitDepth
    else picture.palette = []
  length_rows : picture.rows.length = picture.header.height
  length_row : ∀ row ∈ picture.rows, row.length = picture.header.width
  length_pixel : ∀ row ∈ picture.rows, ∀ pixel ∈ row,
    pixel.length = picture.header.type.channels
  sample_lt : ∀ row ∈ picture.rows, ∀ pixel ∈ row, ∀ sample ∈ pixel,
    sample < 1 <<< picture.header.bitDepth
  index_lt : picture.header.type = .indexed → ∀ row ∈ picture.rows, ∀ pixel ∈ row,
    ∀ index ∈ pixel, index < picture.palette.length

instance (picture : Picture) : Decidable picture.Legal :=
  decidable_of_iff
    (picture.header.Legal ∧
      (if picture.header.type = .indexed then
        1 ≤ picture.palette.length ∧ picture.palette.length ≤ 1 <<< picture.header.bitDepth
      else picture.palette = []) ∧
      picture.rows.length = picture.header.height ∧
      (∀ row ∈ picture.rows, row.length = picture.header.width) ∧
      (∀ row ∈ picture.rows, ∀ pixel ∈ row, pixel.length = picture.header.type.channels) ∧
      (∀ row ∈ picture.rows, ∀ pixel ∈ row, ∀ sample ∈ pixel,
        sample < 1 <<< picture.header.bitDepth) ∧
      (picture.header.type = .indexed → ∀ row ∈ picture.rows, ∀ pixel ∈ row, ∀ index ∈ pixel,
        index < picture.palette.length))
    ⟨fun h => ⟨h.1, h.2.1, h.2.2.1, h.2.2.2.1, h.2.2.2.2.1, h.2.2.2.2.2.1, h.2.2.2.2.2.2⟩,
      fun h => ⟨h.1, h.2, h.3, h.4, h.5, h.6, h.7⟩⟩

/-! ## The order of pixels -/

/-- The passes that take the pixels of a tile of an interlaced picture. -/
def passTable : List (List Nat) :=
  [[1, 6, 4, 6, 2, 6, 4, 6],
   [7, 7, 7, 7, 7, 7, 7, 7],
   [5, 6, 5, 6, 5, 6, 5, 6],
   [7, 7, 7, 7, 7, 7, 7, 7],
   [3, 6, 4, 6, 3, 6, 4, 6],
   [7, 7, 7, 7, 7, 7, 7, 7],
   [5, 6, 5, 6, 5, 6, 5, 6],
   [7, 7, 7, 7, 7, 7, 7, 7]]

/-- The pass that takes the pixel in a row and a column of an interlaced picture. -/
def passOf (row column : Nat) : Nat :=
  ((passTable[row % 8]?.getD [])[column % 8]?).getD 0

/-- The positions in a row that a pass over an interlaced picture takes. -/
def passRow (width pass row : Nat) : List Position :=
  ((List.range width).filter (passOf row · = pass)).map (row, ·)

/-- The positions of the pixels in each scanline: row by row, or pass by pass and row by row. Rows
of a pass without any pixels are left out. -/
def Header.order (header : Header) : List (List Position) :=
  match header.interlace with
  | .none => (List.range header.height).map fun row => (List.range header.width).map (row, ·)
  | .adam7 => ([1, 2, 3, 4, 5, 6, 7].flatMap fun pass =>
      (List.range header.height).map (passRow header.width pass)).filter (!·.isEmpty)

/-! ## Scanlines -/

/-- Reads so many samples of the given bits each. -/
def readSamples (depth : Nat) : Nat → List Bool → List Nat
  | 0, _ => []
  | n + 1, bits => Bits.toNat (bits.take depth) :: readSamples depth n (bits.drop depth)

/-- Reads so many pixels of the given samples each. -/
def readPixels (depth channels : Nat) : Nat → List Bool → List Pixel
  | 0, _ => []
  | n + 1, bits =>
    readSamples depth channels bits :: readPixels depth channels n (bits.drop (channels * depth))

/-- The octets that a scanline with so many pixels takes. -/
def Header.scanlineSize (header : Header) (n : Nat) : Nat :=
  (n * header.type.channels * header.bitDepth + 7) / 8

/-- Reads the scanlines for the given positions: the pixels at all of them. In front of a scanline
the filter type tells that it is stored as it is, and there is nothing behind the last one. -/
def readScanlines (header : Header) : List (List Position) → Octets →
    Option (List (Position × Pixel))
  | [], [] => some []
  | [], _ :: _ => none
  | _ :: _, [] => none
  | positions :: order, filter :: stream =>
    let size := header.scanlineSize positions.length
    if filter = 0 ∧ size ≤ stream.length then
      (readScanlines header order (stream.drop size)).map fun pixels =>
        positions.zip (readPixels header.bitDepth header.type.channels positions.length
          (Bits.ofOctets (stream.take size))) ++ pixels
    else none

/-- Puts the pixels at all positions into rows. -/
def arrange (header : Header) (pixels : List (Position × Pixel)) : Option (List (List Pixel)) :=
  (List.range header.height).mapM fun row =>
    (List.range header.width).mapM fun column => pixels.lookup (row, column)

/-! ## Datastreams -/

/-- A part that is a chunk with the right checksum. -/
def Part.chunk? : Part → Option Chunk
  | .signature => none
  | .chunk found checksum => if checksum = found.checksum then some found else none

/-- The chunks of a datastream behind its signature. -/
def chunks? (stream : Octets) : Option (List Chunk) :=
  match split? stream with
  | some (.signature :: parts) => parts.mapM Part.chunk?
  | _ => none

/-- The entries of a palette. -/
def readPalette : Octets → Option (List (UInt8 × UInt8 × UInt8))
  | [] => some []
  | red :: green :: blue :: rest => (readPalette rest).map ((red, green, blue) :: ·)
  | _ => none

/-- The data of all chunks of a type together. -/
def dataOf (type : Octets) (chunks : List Chunk) : Octets :=
  (chunks.filter (·.type = type)).flatMap Chunk.data

/-- The picture that the header and the data of chunks show. -/
def ofData? (header : Header) (paletteData stored : Octets) : Option Picture := do
  let palette ← readPalette paletteData
  let raw ← Zlib.decompress? stored
  let pixels ← readScanlines header header.order raw
  let rows ← arrange header pixels
  return { header, palette, rows }

/-- The picture that chunks show. The first one is the header, the last one the end. -/
def ofChunks? (chunks : List Chunk) : Option Picture := do
  let first ← chunks.head?
  let last ← chunks.getLast?
  if first.type = headerType ∧ last = ⟨endType, []⟩ then
    ofData? (← Header.ofOctets? first.data) (dataOf paletteType chunks) (dataOf dataType chunks)
  else
    none

/-- The picture that a datastream shows. -/
def decode? (stream : Octets) : Option Picture := do
  ofChunks? (← chunks? stream)

end Png

end ScriptedPng
