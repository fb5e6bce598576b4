import ScriptedPng.Png.Writer
import ScriptedPng.Proofs.Record.Steady

/-!
# Framing steady data

A record of a chunk around steady data packs to the frame of the chunk: the length that stands in
front and the checksum that stands behind are those of the octets in between. Data whose numbers do
not fit, or that is too long for its length to be stored, makes no chunk.

## Main definitions

* `Png.chunk?` — the chunk that steady data makes.
* `Png.misfit` — the number that keeps steady data from making one.

## Main statements

* `Png.pack_chunkRecord` — packing the record of a chunk gives its frame.
* `Writer.writeChunk_eq` — writing steady data writes the frame of the chunk it makes.
-/

namespace ScriptedPng.Png

open Record

/-! ## Data of chunks -/

theorem steady_numberField (format : IntegerFormat) (value : Value) :
    (numberField format value).Steady := .number rfl

theorem steady_octetField (octets : Octets) : (octetField octets).Steady := .octets rfl

theorem steady_leafRecord {cls : Record.Class} {fields : List (String × Field)}
    (hfree : ∀ what ∈ Attribute.all, what.word ∉ fields.map Prod.fst)
    (hfields : ∀ entry ∈ fields, entry.2.Steady) : (leafRecord cls fields).Steady := by
  refine .record rfl (by simp) hfree ?_
  intro part hmem
  obtain ⟨entry, hentry, rfl⟩ := List.mem_map.1 hmem
  exact ((hfields entry hentry).asPart _ _).hold

theorem raw_mapLabel (f : Label → Label) (field : Field) : (field.mapLabel f).raw = field.raw := by
  cases field <;> simp [Field.mapLabel, Field.raw]

theorem raw_part (field : Field) (name cls : String) :
    ((field.asPart name cls).hold).raw = field.raw := by
  simp [Field.asPart, Field.hold, raw_mapLabel]

theorem filterMap_range_length {α : Type} {items : List α} {n : Nat} (hn : n = items.length) :
    (List.range n).filterMap (fun place => items[place]?) = items := by
  subst hn
  induction items with
  | nil => rfl
  | cons item rest ih =>
    rw [List.length_cons, List.range_succ_eq_map, List.filterMap_cons_some (by rfl),
      List.filterMap_map]
    exact congrArg (item :: ·) ih

/-- The octets of a record of a class are those of its fields, one after the other. -/
theorem raw_leafRecord {cls : Record.Class} {fields : List (String × Field)}
    (hfree : ∀ what ∈ Attribute.all, what.word ∉ fields.map Prod.fst) :
    (leafRecord cls fields).raw =
      (collect (fields.map fun entry => entry.2.raw)).map List.flatten := by
  rw [leafRecord, Field.Steady.raw_record hfree]
  rw [RecordKind.inOrder, filterMap_range_length (by simp), List.map_map]
  congr 2
  apply List.map_congr_left
  intro entry _
  exact raw_part entry.2 entry.1 cls.name

/-! ## Chunks -/

/-- The chunk of a type around the data, if all its numbers and its length fit. -/
def chunk? (type : Octets) (data : Field) : Option Chunk :=
  match data.raw with
  | .ok octets => if octets.length < UInt32.size then some ⟨type, octets⟩ else none
  | .error _ => none

theorem chunk?_eq_some {type : Octets} {data : Field} {chunk : Chunk} :
    chunk? type data = some chunk ↔
      data.raw = .ok chunk.data ∧ chunk.data.length < UInt32.size ∧ chunk.type = type := by
  obtain ⟨chunkType, octets⟩ := chunk
  cases hraw : data.raw with
  | error fault => simp [chunk?, hraw]
  | ok found =>
    by_cases hlength : found.length < UInt32.size
    · simp only [chunk?, hraw, hlength, if_true, Option.some.injEq, Chunk.mk.injEq, Except.ok.injEq]
      constructor
      · rintro ⟨rfl, rfl⟩
        exact ⟨rfl, hlength, rfl⟩
      · rintro ⟨rfl, -, rfl⟩
        exact ⟨rfl, rfl⟩
    · simp only [chunk?, hraw, hlength, if_false, Except.ok.injEq]
      constructor
      · rintro ⟨⟩
      · rintro ⟨rfl, h, -⟩
        exact absurd h hlength

/-- The number that keeps steady data from making a chunk. The length is packed before the data. -/
def misfit (data : Field) : Misfit :=
  let length := data.size.toOption.getD 0
  match data.raw with
  | .error (.unencodable found) =>
    if length < UInt32.size then found else ⟨wordFormat, .big, some length⟩
  | _ => ⟨wordFormat, .big, some length⟩

/-- A natural number is stored without a sign if it is below the bound of its width. -/
theorem numberRaw_unsigned (width n : Nat) :
    numberRaw ⟨width, false⟩ .big none (.integer n) =
      if n < Nat.pow 256 width then .ok (Octets.big width n)
      else .error (.unencodable ⟨⟨width, false⟩, .big, some (n : Int)⟩) := by
  have hfits : (⟨width, false⟩ : IntegerFormat).Fits n ↔ n < Nat.pow 256 width := by
    simp only [IntegerFormat.Fits, IntegerFormat.least, IntegerFormat.count, Nat.pow_eq,
      Bool.false_eq_true, if_false]
    omega
  by_cases h : n < Nat.pow 256 width
  · have hmod : (n : Int) % (Nat.pow 256 width : Nat) = n :=
      Int.emod_eq_of_lt (Int.natCast_nonneg n) (Int.ofNat_lt.2 h)
    rw [if_pos h]
    unfold numberRaw
    simp only [Option.bind_some, IntegerFormat.encode?, hfits.2 h, if_true,
      IntegerFormat.count, hmod, Int.toNat_natCast, ByteOrder.arrange]
  · have hnot : ¬ (⟨width, false⟩ : IntegerFormat).Fits n := mt hfits.1 h
    rw [if_neg h]
    unfold numberRaw
    simp only [Option.bind_some, IntegerFormat.encode?, hnot, if_false]

theorem numberRaw_word (n : Nat) :
    numberRaw wordFormat .big none (.integer n) =
      if n < UInt32.size then .ok (Octets.big 4 n)
      else .error (.unencodable ⟨wordFormat, .big, some (n : Int)⟩) :=
  numberRaw_unsigned 4 n

/-- A member of an enumeration is stored as its number. -/
theorem numberRaw_member (format : IntegerFormat) (order : ByteOrder) (choices : Enumeration)
    (kind name : String) (n : Int) :
    numberRaw format order (some choices) (.member ⟨kind, name, n⟩) =
      numberRaw format order none (.integer n) := rfl

/-! ## Frames -/

/-- The kind of the record of a chunk. -/
def chunkKind : RecordKind :=
  ⟨chunkClass.name, chunkClass.lineage, ["length", "type", "Data", "crc"], [0, 1, 2, 3]⟩

/-- The parts of the record of a chunk, with the numbers that its length and checksum hold. -/
def chunkParts (length : Int) (type : Octets) (data : Field) (checksum : Int) : List Field :=
  let part (name : String) (field : Field) : Field := (field.asPart name chunkClass.name).hold
  [part "length" (.number .fresh (.sizeOf "Data") wordFormat .big none (.integer length)),
    part "type" (.octets .fresh (some 4) type),
    part "Data" data,
    part "crc" (.number .fresh (.checksumOf ["type", "Data"]) wordFormat .big none
      (.integer checksum))]

theorem chunkRecord_eq {type : Octets} (htype : type.length = 4) (data : Field) :
    chunkRecord type data = .ok (.record .fresh chunkKind (chunkParts 0 type data 0)) :=
  if_pos htype

theorem size_mapLabel (f : Label → Label) (field : Field) :
    (field.mapLabel f).size = field.size := by
  cases field <;> simp [Field.mapLabel, Field.size]

theorem size_part (field : Field) (name cls : String) :
    ((field.asPart name cls).hold).size = field.size := by
  simp [Field.asPart, Field.hold, size_mapLabel]

theorem dependent_sizeOf {around : Surroundings} {name : String} {field : Field} {n : Nat}
    (hrefer : around.refer name = some field) (hsize : field.size = .ok n) :
    (Role.sizeOf name).dependent around = .ok (some n) := by
  simp [Role.dependent, Surroundings.get, hrefer, bind, Except.bind, hsize, pure, Except.pure]

theorem dependent_checksumOf {around : Surroundings} {first second : String} {a b : Field}
    {octets more : Octets} (ha : around.refer first = some a) (hb : around.refer second = some b)
    (hraw : a.raw = .ok octets) (hmore : b.raw = .ok more) :
    (Role.checksumOf [first, second]).dependent around =
      .ok (some (Checksum.crc32 (octets ++ more)).toNat) := by
  simp [Role.dependent, Surroundings.get, ha, hb, bind, Except.bind, hraw, hmore, pure, Except.pure,
    Except.map]

/-- A number that depends on others takes the value that they give it. -/
theorem packWithin_dependent (label : Label) {role : Role} (format : IntegerFormat)
    (order : ByteOrder) (value : Value) {around : Surroundings} {n : Nat} (bound : Nat)
    (hlabel : label.attached = []) (hrole : role.dependent around = .ok (some n)) :
    (Field.number label role format order none value).packWithin bound around =
      (numberRaw format order none (.integer n),
        .number label role format order none (.integer n)) := by
  have hhides : (Field.number label role format order none value).hides .packing = false := by
    simp [Field.hides, Field.find?, Label.lookup, Field.label, hlabel, Field.part?]
  simp [Field.packWithin, hhides, hrole]

theorem packPlaces_cons {pack : Nat → List Field → Field → Packed} (place : Nat)
    {rest : List Nat} {parts : List Field} {part after : Field} {octets : Octets}
    (hpart : parts[place]? = some part) (hpack : pack place parts part = (.ok octets, after)) :
    (packPlaces pack (place :: rest) parts).1 =
      (packPlaces pack rest (parts.set place after)).1.map (octets ++ ·) := by
  simp [packPlaces, hpart, hpack]

theorem packPlaces_cons_error {pack : Nat → List Field → Field → Packed} (place : Nat)
    {rest : List Nat} {parts : List Field} {part after : Field} {fault : Fault}
    (hpart : parts[place]? = some part) (hpack : pack place parts part = (.error fault, after)) :
    (packPlaces pack (place :: rest) parts).1 = .error fault := by
  simp [packPlaces, hpart, hpack]

/-- Packing a chunk around steady data puts its length in front and its checksum behind. -/
theorem pack_chunkRecord (type : Octets) {data : Field} {n : Nat} (hdata : data.Steady)
    (hsize : data.size = .ok n) :
    ((Field.record .fresh chunkKind (chunkParts 0 type data 0)).pack {}).1 =
      match chunk? type data with
      | some chunk => .ok chunk.encode
      | none => .error (.unencodable (misfit data)) := by
  obtain ⟨bound, hbound⟩ : ∃ bound,
      (Field.record .fresh chunkKind (chunkParts 0 type data 0)).depth = bound + 1 := ⟨_, rfl⟩
  have hhides : (Field.record .fresh chunkKind (chunkParts 0 type data 0)).hides .packing = false :=
    rfl
  have hsteady := (hdata.asPart "Data" chunkClass.name).hold
  have hraw := raw_part data "Data" chunkClass.name
  have hlength {octets : Octets} (hdataRaw : data.raw = .ok octets) : n = octets.length := by
    simpa [hsize] using hdata.size_of_raw hdataRaw
  simp only [Field.pack, hbound, Field.packWithin, hhides, Bool.false_eq_true, if_false]
  -- The length comes first, and is that of the data.
  have hfirst (around : Surroundings) (hrefer : around.refer "Data" = some _) :=
    packWithin_dependent (Label.fresh.asPart "length" chunkClass.name).hold wordFormat .big
      (.integer 0) bound rfl
      (dependent_sizeOf hrefer ((size_part data "Data" chunkClass.name).trans hsize))
  simp only [numberRaw_word] at hfirst
  by_cases hn : n < UInt32.size
  · rw [if_pos hn] at hfirst
    rw [chunkKind, packPlaces_cons 0 rfl (hfirst _ rfl)]
    -- Then the type and the data, which stay as they are.
    rw [packPlaces_cons 1 rfl (Field.Steady.packWithin_eq (.octets rfl) _ _)]
    cases hdataRaw : data.raw with
    | error fault =>
      obtain ⟨found, rfl⟩ := hdata.fault_of_raw hdataRaw
      have hmisfit : misfit data = found := by
        simp [misfit, hdataRaw, hsize, Except.toOption, hn]
      have hsecond := hsteady.packWithin_eq bound
      simp only [hraw, hdataRaw] at hsecond
      rw [packPlaces_cons_error 2 rfl (hsecond _)]
      simp [chunk?, hdataRaw, hmisfit, Except.map]
    | ok octets =>
      obtain rfl := hlength hdataRaw
      have hsecond := hsteady.packWithin_eq bound
      simp only [hraw, hdataRaw] at hsecond
      rw [packPlaces_cons 2 rfl (hsecond _)]
      -- The checksum comes last, and covers the type and the data.
      have hlast (around : Surroundings) (htype : around.refer "type" = some _)
          (hdata : around.refer "Data" = some _) :=
        packWithin_dependent (Label.fresh.asPart "crc" chunkClass.name).hold wordFormat .big
          (.integer 0) bound rfl
          (dependent_checksumOf htype hdata
            (a := ((Field.octets .fresh (some 4) type).asPart "type" chunkClass.name).hold) rfl
            (hraw.trans hdataRaw))
      simp only [numberRaw_word, UInt32.toNat_lt_size, if_true] at hlast
      rw [packPlaces_cons 3 rfl (hlast _ rfl rfl)]
      have hchunk : chunk? type data = some ⟨type, octets⟩ :=
        chunk?_eq_some.2 ⟨hdataRaw, hn, rfl⟩
      simp [hchunk, packPlaces, Except.map, Chunk.encode, Chunk.checksum]
  · rw [if_neg hn] at hfirst
    have hmisfit : misfit data = ⟨wordFormat, .big, some (n : Int)⟩ := by
      unfold misfit
      split <;> simp [hsize, Except.toOption, hn]
    rw [chunkKind, packPlaces_cons_error 0 rfl (hfirst _ rfl), hmisfit]
    cases hdataRaw : data.raw with
    | error fault => simp [chunk?, hdataRaw]
    | ok octets =>
      obtain rfl := hlength hdataRaw
      simp only [chunk?, hdataRaw, if_neg hn]

/-! ## Writing chunks -/

/-- The octets are four letters that can be the type of a chunk. -/
structure IsType (type : Octets) : Prop where
  length_eq : type.length = 4
  text_eq : String.fromUTF8? ⟨type.toArray⟩ = some type.toText

theorem isType_header : IsType headerType := ⟨rfl, rfl⟩

theorem isType_gamma : IsType gammaType := ⟨rfl, rfl⟩

theorem isType_intent : IsType intentType := ⟨rfl, rfl⟩

theorem isType_chromaticity : IsType chromaticityType := ⟨rfl, rfl⟩

theorem isType_palette : IsType paletteType := ⟨rfl, rfl⟩

theorem isType_data : IsType dataType := ⟨rfl, rfl⟩

theorem isType_end : IsType endType := ⟨rfl, rfl⟩

theorem mapError_ok {ε ε' α : Type} (f : ε → ε') (value : α) :
    (Except.ok value).mapError f = .ok value := rfl

theorem mapError_error {ε ε' α : Type} (f : ε → ε') (failure : ε) :
    (Except.error failure : Except ε α).mapError f = .error (f failure) := rfl

/-- Writing steady data of a known size writes the frame of the chunk that it makes, if any. -/
theorem Writer.writeChunk_eq {type : Octets} {data : Field} {n : Nat} (htype : IsType type)
    (hdata : data.Steady) (hsize : data.size = .ok n) :
    Writer.writeChunk type data =
      match chunk? type data with
      | some chunk => do
        Writer.write chunk.encode
        modify fun writer => { writer with types := writer.types ++ [chunk.type] }
      | none => Writer.fail (.valueOutOfRange type.toText (misfit data)) := by
  have hpack := pack_chunkRecord type hdata hsize
  simp only [Writer.writeChunk, chunkRecord_eq htype.length_eq, htype.text_eq, hsize]
  simp only [mapError_ok, Writer.lift, pure_bind]
  cases hchunk : chunk? type data with
  | none =>
    simp only [hchunk] at hpack
    simp only [hpack]
  | some chunk =>
    simp only [hchunk] at hpack
    obtain ⟨-, -, rfl⟩ := chunk?_eq_some.1 hchunk
    simp only [hpack]

end ScriptedPng.Png
