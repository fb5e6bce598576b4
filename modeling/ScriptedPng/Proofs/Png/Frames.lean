import ScriptedPng.Proofs.Png.Framing
import ScriptedPng.Proofs.Record.Settled

/-!
# Framing any data

The data of a chunk may be any field, with numbers of its own that are brought up to date while the
chunk is packed. The length in front of it is its size, found before it is packed; the checksum
behind it is taken over the octets that it has after it has been packed. The length is right in any
case. The checksum is that of the octets in the frame, unless a record in the data stores a part
twice.

## Main definitions

* `Png.Frame` — a chunk in its frame, with the octets that the checksum covers.
* `Png.packData` — what data is packed to as a part of a chunk.
* `Png.Framed` — the frame is one around the data.
* `Png.readFrame?` — a frame taken apart.

## Main statements

* `Png.exists_framed` — packing the record of a chunk gives a frame around its data.
* `Framed.of_steady` — the frame around steady data is that of the chunk that it makes.
* `Png.readFrame?_encode` — type, data and checksum are read back from a frame.
-/

namespace ScriptedPng.Png

open Record

/-! ## Frames -/

/-- A chunk in its frame. The checksum is that of the type and the octets covered, which need not be
those of the payload. -/
structure Frame where
  type : Octets
  payload : Octets
  covered : Octets
deriving DecidableEq, Repr

namespace Frame

/-- The chunk in the frame. -/
def chunk (frame : Frame) : Chunk := ⟨frame.type, frame.payload⟩

/-- The checksum behind the payload. -/
def checksum (frame : Frame) : Nat :=
  (Checksum.crc32 (frame.type ++ frame.covered)).toNat

/-- The octets of the frame. -/
def encode (frame : Frame) : Octets :=
  Octets.big 4 frame.payload.length ++ frame.type ++ frame.payload ++ Octets.big 4 frame.checksum

theorem encode_eq {frame : Frame} (h : frame.covered = frame.payload) :
    frame.encode = frame.chunk.encode := by
  simp only [encode, checksum, h, Chunk.encode, chunk, Chunk.checksum]

end Frame

/-- The frame that octets begin with: its chunk, the checksum, and what follows. -/
def readFrame? (stream : Octets) : Option (Chunk × Nat × Octets) :=
  let length := Octets.number (stream.take 4)
  let rest := stream.drop 8
  if stream.length < 12 ∨ rest.length < length + 4 then none
  else some (⟨(stream.drop 4).take 4, rest.take length⟩,
    Octets.number ((rest.drop length).take 4), rest.drop (length + 4))

/-- A frame is read back whatever its checksum covers. -/
theorem readFrame?_encode {frame : Frame} (htype : frame.type.length = 4)
    (hpayload : frame.payload.length < UInt32.size) (rest : Octets) :
    readFrame? (frame.encode ++ rest) = some (frame.chunk, frame.checksum, rest) := by
  have hencode : frame.encode ++ rest = Octets.big 4 frame.payload.length ++
      (frame.type ++ (frame.payload ++ (Octets.big 4 frame.checksum ++ rest))) := by
    simp only [Frame.encode, List.append_assoc]
  have hfront := Octets.length_big 4 frame.payload.length
  have hback := Octets.length_big 4 frame.checksum
  have hlength : (Octets.big 4 frame.payload.length).number = frame.payload.length := by
    rw [Octets.number_big]
    exact Nat.mod_eq_of_lt hpayload
  have hchecksum : (Octets.big 4 frame.checksum).number = frame.checksum := by
    rw [Octets.number_big]
    exact Nat.mod_eq_of_lt (UInt32.toNat_lt _)
  have hdrop : (frame.encode ++ rest).drop 8 =
      frame.payload ++ (Octets.big 4 frame.checksum ++ rest) := by
    rw [show 8 = 4 + 4 from rfl, ← List.drop_drop, hencode, List.drop_left' hfront,
      List.drop_left' htype]
  have hdone : (frame.payload ++ (Octets.big 4 frame.checksum ++ rest)).drop
      (frame.payload.length + 4) = rest := by
    rw [← List.drop_drop, List.drop_left, List.drop_left' hback]
  rw [readFrame?, hdrop, hencode, List.take_left' hfront, List.drop_left' hfront, hlength]
  rw [if_neg (by simp [htype]; omega), hdone, List.take_left' htype, List.take_left,
    List.drop_left, List.take_left' hback, hchecksum]
  rfl

/-! ## Data of any kind -/

/-- What data of the size `n` is packed to as a part of a chunk, whose length has been found. -/
def packData (type : Octets) (data : Field) (n : Nat) : Packed :=
  let part := (data.asPart "Data" chunkClass.name).hold
  part.pack (Field.aroundPart {} .fresh chunkKind 2 (chunkParts n type data 0) part)

/-- The frame is one around the data. -/
structure Framed (type : Octets) (data : Field) (frame : Frame) : Prop where
  type_eq : frame.type = type
  type_length : type.length = 4
  size : data.size = .ok frame.payload.length
  fits : frame.payload.length < UInt32.size
  /-- The payload is what the data is packed to, and the checksum covers what it is then. -/
  packed : ∃ after, packData type data frame.payload.length = (.ok frame.payload, after) ∧
    after.raw = .ok frame.covered

theorem inner_mapLabel (f : Label → Label) (field : Field) :
    (field.mapLabel f).inner = field.inner := by
  cases field with
  | array label element value =>
    cases value with
    | field content => cases content <;> rfl
    | _ => rfl
  | _ => rfl

/-- If every part in the data is stored once, the checksum covers the payload. -/
theorem Framed.covered_eq {type : Octets} {data : Field} {frame : Frame}
    (h : Framed type data frame) (honce : ∀ outer, data.Within outer → outer.StoresOnce) :
    frame.covered = frame.payload := by
  obtain ⟨after, hpacked, hraw⟩ := h.packed
  refine Field.raw_of_packWithin (Field.Within.forall_of_inner ?_ ?_) hpacked hraw
  · have hdata := honce data .refl
    cases data <;> exact hdata
  · rw [Field.hold, inner_mapLabel, Field.asPart, inner_mapLabel]
    exact fun part hmem => Field.Within.forall_of_mem honce hmem

/-- The frame around steady data is that of the chunk that it makes. -/
theorem Framed.of_steady {type : Octets} {data : Field} {frame : Frame}
    (h : Framed type data frame) (hdata : data.Steady) :
    data.raw = .ok frame.payload ∧ frame.covered = frame.payload := by
  obtain ⟨after, hpacked, hraw⟩ := h.packed
  have hsteady := (hdata.asPart "Data" chunkClass.name).hold
  rw [packData, Field.pack, hsteady.packWithin_eq] at hpacked
  obtain ⟨hpayload, rfl⟩ := Prod.mk.inj hpacked
  rw [hpayload, Except.ok.injEq] at hraw
  exact ⟨(raw_part ..).symm.trans hpayload, hraw.symm⟩

/-! ## Packing chunks -/

theorem depth_chunkRecord (length checksum : Int) (type : Octets) (data : Field) :
    (Field.record .fresh chunkKind (chunkParts length type data checksum)).depth =
      ((data.asPart "Data" chunkClass.name).hold).depth + 1 := by
  have hpos := ((data.asPart "Data" chunkClass.name).hold).depth_pos
  simp only [Field.depth, chunkParts, Field.depths, Field.asPart, Field.hold, Field.mapLabel]
    at hpos ⊢
  omega

/-- A number of four octets that depends on others has been packed. -/
theorem word_of_packWithin {label : Label} {role : Role} {value : Value} {bound n : Nat}
    {around : Surroundings} {octets : Octets} {after : Field}
    (h : (Field.number label role wordFormat .big none value).packWithin bound around =
      (.ok octets, after)) (hrole : role.dependent around = .ok (some n)) :
    n < UInt32.size ∧ octets = Octets.big 4 n ∧
      after = .number label role wordFormat .big none (.integer n) := by
  obtain ⟨hhides, -⟩ := Field.packs_of_packWithin h
  rw [Field.packWithin_number hhides hrole] at h
  obtain ⟨hraw, rfl⟩ := Prod.mk.inj h
  rw [Option.elim_some, numberRaw_word] at hraw
  split at hraw
  · exact ⟨‹_›, (Except.ok.inj hraw).symm, rfl⟩
  · cases hraw

/-- Packing the record of a chunk gives a frame around its data. -/
theorem exists_framed {type : Octets} {data : Field} {n : Nat} {octets : Octets}
    (htype : type.length = 4) (hsize : data.size = .ok n)
    (h : ((Field.record .fresh chunkKind (chunkParts 0 type data 0)).pack {}).1 = .ok octets) :
    ∃ frame, Framed type data frame ∧ octets = frame.encode := by
  have hhides : (Field.record .fresh chunkKind (chunkParts 0 type data 0)).hides .packing = false :=
    rfl
  have hpart : ((data.asPart "Data" chunkClass.name).hold).size = .ok n :=
    (size_part data "Data" chunkClass.name).trans hsize
  rw [Field.pack, depth_chunkRecord, Field.packWithin_record hhides] at h
  -- The length comes first, and is the size of the data.
  obtain ⟨parts, hparts⟩ : ∃ parts, packPlaces _ chunkKind.order (chunkParts 0 type data 0) =
    (.ok octets, parts) := ⟨_, Prod.ext h rfl⟩
  obtain ⟨_, _, _, hlength, hbehind, rfl⟩ := packPlaces_cons_of_some (by rfl) hparts
  obtain ⟨hfits, rfl, rfl⟩ := word_of_packWithin hlength (dependent_sizeOf rfl hpart)
  -- Then come the type and the data.
  obtain ⟨_, _, _, hpackedType, hbehindType, rfl⟩ := packPlaces_cons_of_some (by rfl) hbehind
  obtain ⟨htypeRaw, rfl⟩ := Prod.mk.inj
    (hpackedType.symm.trans (Field.Steady.packWithin_eq (.octets rfl) _ _))
  obtain rfl := (Except.ok.inj htypeRaw).symm
  obtain ⟨payload, after, _, hpayload, hbehindData, rfl⟩ :=
    packPlaces_cons_of_some (by rfl) hbehindType
  obtain ⟨rfl, -⟩ := Field.size_of_packWithin hpayload hpart
  -- The checksum comes last, and covers the type and the data as it is by then.
  obtain ⟨_, _, _, hchecksum, hend, rfl⟩ := packPlaces_cons_of_some (by rfl) hbehindData
  cases hend
  obtain ⟨_, hrole⟩ := Field.exists_dependent hchecksum
  obtain ⟨covered, hcovered, rfl⟩ := Role.dependent_checksumOf_eq_ok.1 hrole
  obtain ⟨-, rfl, -⟩ := word_of_packWithin hchecksum hrole
  rcases hcovered with _ | ⟨⟨_, hreferType, hrawType⟩, _ | ⟨⟨_, hreferData, hrawData⟩, ⟨⟩⟩⟩
  cases hreferType
  cases hreferData
  cases hrawType
  exact ⟨⟨type, payload, _⟩, ⟨rfl, htype, hsize, hfits, after, hpayload, hrawData⟩, by
    simp [Frame.encode, Frame.checksum]⟩

end ScriptedPng.Png
