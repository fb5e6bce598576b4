import ScriptedPng.Checksum.Crc32
import ScriptedPng.Png.Records

/-!
# Chunks

A PNG datastream is the signature followed by chunks. A chunk is a type of four octets and data; it
is framed by the length of the data in front and the CRC-32 of type and data behind.

## Main definitions

* `Png.Chunk` — a chunk, with its frame `Chunk.encode`.
* `Png.Part`, `Png.split?` — a datastream taken apart.
-/

namespace ScriptedPng.Png

/-! ## Types -/

/-- The type `IHDR`. -/
def headerType : Octets := [0x49, 0x48, 0x44, 0x52]

/-- The type `gAMA`. -/
def gammaType : Octets := [0x67, 0x41, 0x4d, 0x41]

/-- The type `sRGB`. -/
def intentType : Octets := [0x73, 0x52, 0x47, 0x42]

/-- The type `cHRM`. -/
def chromaticityType : Octets := [0x63, 0x48, 0x52, 0x4d]

/-- The type `PLTE`. -/
def paletteType : Octets := [0x50, 0x4c, 0x54, 0x45]

/-- The type `IDAT`. -/
def dataType : Octets := [0x49, 0x44, 0x41, 0x54]

/-- The type `IEND`. -/
def endType : Octets := [0x49, 0x45, 0x4e, 0x44]

/-! ## Frames -/

/-- A type with data. -/
structure Chunk where
  type : Octets
  data : Octets
deriving DecidableEq, Repr

namespace Chunk

/-- The checksum of a chunk. -/
def checksum (chunk : Chunk) : Nat :=
  (Checksum.crc32 (chunk.type ++ chunk.data)).toNat

/-- The chunk with its frame. -/
def encode (chunk : Chunk) : Octets :=
  Octets.big 4 chunk.data.length ++ chunk.type ++ chunk.data ++ Octets.big 4 chunk.checksum

end Chunk

/-- A part of a datastream. -/
inductive Part where
  | signature
  /-- A chunk with the checksum that stands behind it. -/
  | chunk (chunk : Chunk) (checksum : Nat)
deriving DecidableEq, Repr

/-- The part that a datastream starts with, and what follows. -/
def splitPart? (stream : Octets) : Option (Part × Octets) :=
  if signature.isPrefixOf stream then
    some (.signature, stream.drop signature.length)
  else if stream.length < 12 then
    none
  else
    let length := Octets.number (stream.take 4)
    let rest := stream.drop 8
    if rest.length < length + 4 then none
    else
      let chunk : Chunk := ⟨(stream.drop 4).take 4, rest.take length⟩
      some (.chunk chunk (Octets.number ((rest.drop length).take 4)), rest.drop (length + 4))

theorem length_lt_of_splitPart? {stream rest : Octets} {part : Part}
    (h : splitPart? stream = some (part, rest)) (ne : stream ≠ []) :
    rest.length < stream.length := by
  have pos := List.length_pos_iff.2 ne
  simp only [splitPart?] at h
  split at h
  · simp only [Option.some.injEq, Prod.mk.injEq] at h
    obtain ⟨_, rfl⟩ := h
    simp only [List.length_drop, signature, List.length_cons, List.length_nil]
    omega
  · split at h
    · simp at h
    · split at h
      · simp at h
      · simp only [Option.some.injEq, Prod.mk.injEq] at h
        obtain ⟨_, rfl⟩ := h
        simp only [List.length_drop]
        omega

/-- The parts of a datastream. -/
def split? (stream : Octets) : Option (List Part) :=
  if empty : stream = [] then some []
  else
    match h : splitPart? stream with
    | none => none
    | some (part, rest) =>
      have := length_lt_of_splitPart? h empty
      (split? rest).map (part :: ·)
termination_by stream.length

end ScriptedPng.Png
