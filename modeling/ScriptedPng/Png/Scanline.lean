import ScriptedPng.Bits
import ScriptedPng.Image.Description

/-!
# Rows of pixel data

Pixel data describes an image row by row, a row pixel by pixel, each pixel in the same number of
octets. An interlaced image is stored in seven passes; each one takes the pixels of some columns of
some rows. A row is stored as a scanline, in which samples smaller than an octet are packed.

## Main definitions

* `Png.Pass` — a pass over an image, with the seven passes `Png.adam7`.
* `Png.rows` — the rows of pixel data.
* `Png.subImages` — the rows in the order in which they are stored, pass by pass.
* `Png.packRow` — the scanline of a row.
* `Png.scanlines` — the scanlines of pixel data.
-/

namespace ScriptedPng.Png

/-- What keeps pixel data from being stored. -/
inductive RowFault where
  /-- Rows have no octets. -/
  | emptyRow
  /-- The pixel data ends before a row that is to be stored. -/
  | missingRow
  /-- A sample is too large for its bits. -/
  | largeSample
deriving DecidableEq, Repr

/-- A pass over an image: every `dx`-th column from `x` on of every `dy`-th row from `y` on. -/
structure Pass where
  x : Nat
  y : Nat
  dx : Nat
  dy : Nat
deriving DecidableEq, Repr

/-- The passes of an interlaced image. -/
def adam7 : List Pass :=
  [⟨0, 0, 8, 8⟩, ⟨4, 0, 8, 8⟩, ⟨0, 4, 4, 8⟩, ⟨2, 0, 4, 4⟩, ⟨0, 2, 2, 4⟩, ⟨1, 0, 2, 2⟩, ⟨0, 1, 1, 2⟩]

/-- How many numbers below `limit` there are in steps of `step` from `first` on. -/
def stepCount (first step limit : Nat) : Nat :=
  (limit - first + step - 1) / step

/-- The numbers below `limit` in steps of `step` from `first` on. -/
def steps (first step limit : Nat) : List Nat :=
  List.range' first (stepCount first step limit) step

namespace Pass

/-- The pass takes a pixel of the image at least. -/
def Meets (pass : Pass) (image : Image) : Prop :=
  (pass.x : Int) < image.width ∧ (pass.y : Int) < image.height

instance (pass : Pass) (image : Image) : Decidable (pass.Meets image) :=
  inferInstanceAs (Decidable (_ ∧ _))

/-- The octets of a row in the columns of the pass. -/
def slice (pass : Pass) (row : Octets) : Octets :=
  let octets := row.toArray
  (steps pass.x pass.dx octets.size).filterMap fun column => octets[column]?

/-- The pixels of a row in the columns of the pass, put together. -/
def join (pass : Pass) (pixelSize : Nat) (row : Octets) : Octets :=
  let pixels := (row.pieces (pixelSize - 1)).toArray
  (steps pass.x pass.dx pixels.size).flatMap fun column => pixels[column]?.getD []

/-- The part of a row that the pass takes: some of its pixels. Pixels of one octet are sliced out of
the row. -/
def selectRow (pass : Pass) (pixelSize : Nat) (row : Octets) : Octets :=
  if pixelSize = 1 then pass.slice row else pass.join pixelSize row

/-- The rows that the pass takes, each one reduced to the columns of the pass. The rows have to
reach as far down as the image for that. -/
def select (pass : Pass) (image : Image) (rows : Array Octets) : Except RowFault (List Octets) :=
  if stepCount pass.y pass.dy image.height.toNat ≤ stepCount pass.y pass.dy rows.size then
    .ok ((steps pass.y pass.dy image.height.toNat).map fun index =>
      pass.selectRow image.pixelSize.toNat (rows[index]?.getD []))
  else .error .missingRow

/-- Slicing is the same as putting pixels of one octet together. -/
theorem slice_eq_join (pass : Pass) (row : Octets) : pass.slice row = pass.join 1 row := by
  simp only [slice, join, Nat.sub_self, Octets.pieces_zero, List.size_toArray, List.length_map,
    List.getElem?_toArray, List.getElem?_map]
  induction steps pass.x pass.dx row.length with
  | nil => rfl
  | cons column columns ih => cases hoctet : row[column]? <;> simp [hoctet, ih]

theorem selectRow_eq_join (pass : Pass) (pixelSize : Nat) (row : Octets) :
    pass.selectRow pixelSize row = pass.join pixelSize row := by
  rw [selectRow]
  split
  · subst pixelSize
    exact pass.slice_eq_join row
  · rfl

end Pass

/-- The rows of pixel data; the last one may be incomplete. -/
def rows (image : Image) (data : Octets) : Except RowFault (List Octets) :=
  let size := image.width * image.pixelSize
  if size = 0 then .error .emptyRow
  else if size < 0 then .ok []
  else .ok (data.pieces (size.toNat - 1))

/-- The passes in which the pixels of an interlaced image are stored. -/
def passes (image : Image) : List Pass :=
  adam7.filter fun pass => pass.Meets image

/-- The rows of each pass in turn; without interlacing all rows make one pass. -/
def subImages (image : Image) (data : Octets) : Except RowFault (List (List Octets)) := do
  let all ← rows image data
  match image.interlace with
  | .none => return [all]
  | .adam7 => (passes image).mapM fun pass => pass.select image all.toArray

/-- The scanline of a row whose samples have `depth` bits. Samples smaller than an octet, one in
each octet of the row, are packed from the most significant bits on. -/
def packRow (depth : Int) (row : Octets) : Except RowFault Octets :=
  if 8 ≤ depth then .ok row
  else if row.any fun sample => depth ≤ 0 ∨ 1 <<< depth.toNat ≤ sample.toNat then
    .error .largeSample
  else .ok (Bits.toOctets (row.flatMap fun sample => Bits.ofNat depth.toNat sample.toNat))

/-- The scanlines of pixel data in the order in which they are stored. A pass is taken as a whole
before its rows are packed. -/
def scanlines (image : Image) (data : Octets) : Except RowFault (List Octets) := do
  let all ← rows image data
  match image.interlace with
  | .none => all.mapM (packRow image.bitDepth)
  | .adam7 =>
    let packed ← (passes image).mapM fun pass => do
      (← pass.select image all.toArray).mapM (packRow image.bitDepth)
    return packed.flatten

end ScriptedPng.Png
