import ScriptedPng.Proofs.Outcome
import ScriptedPng.Proofs.Png.Payload

/-!
# Plans of writing

What a step of writing is going to write does not depend on the sink: it is a list of chunks, one
write each, and a result once they are written. The sink decides only how far the step comes.

## Main definitions

* `Png.Plan` — chunks to be written one after the other, and the result.
* `Png.infoPlan`, `Png.dataPlan` — the plans of the chunks before the pixel data and of the data.
* `Writer.Adds` — one state of the writer has some more chunks than another.

## Main statements

* `Writer.writeInfo_eq`, `Writer.writeImage_eq`, `Writer.writeEnd_eq` — the steps carry out plans.
* `Plan.outcome_run` — a plan is carried out up to the first write that fails.
-/

namespace ScriptedPng.Png

open Diagnostic Record

/-- What a step of writing comes to if the sink takes everything. -/
structure Plan where
  /-- The chunks, one write each. -/
  chunks : List Chunk := []
  /-- The result once they are written. -/
  result : Except Failure Unit := .ok ()

/-- Why writes or flushing will fail, if they do. -/
def Sink.reasons (sink : Sink) : List String :=
  (sink.room.map Prod.snd).toList ++ sink.flushFault.toList

/-- Writes a chunk in one write and records its type. -/
def Writer.writeFrame (chunk : Chunk) : WriterM Unit := do
  write chunk.encode
  modify fun writer => { writer with types := writer.types ++ [chunk.type] }

namespace Plan

/-- Carries out the plan. -/
def run (plan : Plan) : WriterM Unit := do
  plan.chunks.forM Writer.writeFrame
  Writer.lift plan.result

/-- One plan after the other, provided that the first one comes to a good end. -/
def andThen (plan next : Plan) : Plan :=
  match plan.result with
  | .ok () => ⟨plan.chunks ++ next.chunks, next.result⟩
  | .error _ => plan

/-- The plan if the condition holds, and else nothing. -/
def when (condition : Bool) (plan : Plan) : Plan :=
  if condition then plan else {}

/-- The plan to write one chunk of a type around its data. -/
def ofData (type : Octets) (data : Field) : Plan :=
  match chunk? type data with
  | some chunk => ⟨[chunk], .ok ()⟩
  | none => ⟨[], .error (.ofCause (.valueOutOfRange type.toText (misfit data)))⟩

/-- The plan to write one chunk of a type around its data, unless a number in the data has no
integer part. -/
def ofNumbers (type : Octets) : Except Double.NoInteger Field → Plan
  | .ok data => ofData type data
  | .error fault => ⟨[], .error (.number fault)⟩

theorem ofData_of_raw {type octets : Octets} {data : Field} (hraw : data.raw = .ok octets)
    (hlength : octets.length < UInt32.size) : ofData type data = ⟨[⟨type, octets⟩], .ok ()⟩ := by
  have hchunk : chunk? type data = some ⟨type, octets⟩ := chunk?_eq_some.2 ⟨hraw, hlength, rfl⟩
  rw [ofData, hchunk]

theorem throw_bind {α β : Type} (failure : Failure) (next : α → WriterM β) :
    (throw failure >>= next) = throw failure := rfl

theorem run_andThen (plan next : Plan) :
    (plan.andThen next).run = (do plan.run; next.run) := by
  obtain ⟨chunks, result⟩ := plan
  cases result with
  | error failure => simp [andThen, run, Writer.lift, throw_bind]
  | ok done => simp [andThen, run, Writer.lift]

theorem run_when (condition : Bool) (plan : Plan) :
    (when condition plan).run = if condition then plan.run else pure () := by
  cases condition <;> rfl

end Plan

/-- The data of a gamma, if it has an integer part in fixed-point form. -/
def gammaData (image : Image) : Except Double.NoInteger Field :=
  (FixedPoint.ofDouble image.gamma).map fun n => numberField wordFormat (.integer n)

/-- The data of a rendering intent. -/
def intentData (image : Image) : Field :=
  numberField byteFormat (image.intent.elim Value.null Value.integer)

/-- The data of chromaticities, if all of them have integer parts in fixed-point form. -/
def chromaticityData (image : Image) : Except Double.NoInteger Field :=
  (image.chromaticities.coordinates.mapM FixedPoint.ofDouble).map chromaticityRecord

/-- The plan of the chunks before the pixel data, given the color type of the image. -/
def infoPlan (image : Image) (type : ColorType) : Plan :=
  (Plan.ofData headerType
      (headerRecord image.width image.height image.bitDepth type image.interlace)).andThen <|
    (Plan.when image.given.gamma (.ofNumbers gammaType (gammaData image))).andThen <|
    (Plan.when image.given.intent (.ofData intentType (intentData image))).andThen <|
    (Plan.when image.given.chromaticities
      (.ofNumbers chromaticityType (chromaticityData image))).andThen <|
    Plan.when image.given.palette (.ofData paletteType (paletteArray image.palette))

/-- The plan of the chunks that hold the octets of an image. -/
def dataPlan (raw : Octets) : Plan where
  chunks := ((Zlib.compress raw).pieces (dataLimit - 1)).map fun piece => ⟨dataType, piece⟩

namespace Writer

/-! ## The steps carry out plans -/

theorem writeChunk_eq_run {type : Octets} {data : Field} {n : Nat} (htype : IsType type)
    (hdata : data.Steady) (hsize : data.size = .ok n) :
    writeChunk type data = (Plan.ofData type data).run := by
  rw [writeChunk_eq htype hdata hsize]
  cases hchunk : chunk? type data with
  | none => simp [Plan.ofData, hchunk, Plan.run, lift, fail]
  | some chunk => simp [Plan.ofData, hchunk, Plan.run, lift, writeFrame]

theorem writeChunk_octetField {type : Octets} (htype : IsType type) (octets : Octets) :
    writeChunk type (octetField octets) = (Plan.ofData type (octetField octets)).run :=
  writeChunk_eq_run htype (steady_octetField octets) rfl

/-- Taking over one result after the other is taking over them all. -/
theorem mapM_fixedPoint (values : List Double) :
    values.mapM fixedPoint = lift ((values.mapM FixedPoint.ofDouble).mapError .number) := by
  induction values with
  | nil => rfl
  | cons value rest ih =>
    rw [List.mapM_cons, List.mapM_cons, ih, fixedPoint]
    cases FixedPoint.ofDouble value with
    | error fault => rfl
    | ok number => cases rest.mapM FixedPoint.ofDouble <;> rfl

theorem length_of_mapM_fixedPoint {values : List Double} {numbers : List Int}
    (h : values.mapM FixedPoint.ofDouble = .ok numbers) : numbers.length = values.length := by
  induction values generalizing numbers with
  | nil =>
    cases h
    rfl
  | cons value rest ih =>
    rw [List.mapM_cons] at h
    cases hvalue : FixedPoint.ofDouble value with
    | error fault => simp [hvalue, bind, Except.bind] at h
    | ok number =>
      cases hrest : rest.mapM FixedPoint.ofDouble with
      | error fault => simp [hvalue, hrest, bind, Except.bind] at h
      | ok others =>
        simp only [hvalue, hrest, bind, Except.bind, pure, Except.pure, Except.ok.injEq] at h
        rw [← h, List.length_cons, List.length_cons, ih hrest]

theorem writeGamma_eq (image : Image) :
    (do writeChunk gammaType (numberField wordFormat (.integer (← fixedPoint image.gamma)))) =
      (Plan.ofNumbers gammaType (gammaData image)).run := by
  rw [fixedPoint, gammaData]
  cases FixedPoint.ofDouble image.gamma with
  | error fault => rfl
  | ok n =>
    simp only [mapError_ok, lift, pure_bind, Except.map, Plan.ofNumbers]
    exact writeChunk_eq_run isType_gamma (steady_numberField _ _) rfl

theorem writeChromaticities_eq (image : Image) :
    (do
      let coordinates ← image.chromaticities.coordinates.mapM fixedPoint
      writeChunk chromaticityType (chromaticityRecord coordinates)) =
      (Plan.ofNumbers chromaticityType (chromaticityData image)).run := by
  rw [mapM_fixedPoint, chromaticityData]
  cases hnumbers : image.chromaticities.coordinates.mapM FixedPoint.ofDouble with
  | error fault => rfl
  | ok numbers =>
    have hlength : numbers.length = 8 := length_of_mapM_fixedPoint hnumbers
    exact writeChunk_eq_run isType_chromaticity (steady_chromaticityRecord _)
      (size_chromaticityRecord hlength)

theorem writePalette_eq {palette : List Rgb} (h : ∀ entry ∈ palette, entry.IsBytes) :
    writeChunk paletteType (paletteArray palette) =
      (Plan.ofData paletteType (paletteArray palette)).run :=
  have hsteady := steady_paletteArray palette
  writeChunk_eq_run isType_palette hsteady (hsteady.size_of_raw (raw_paletteArray h))

/-- Packing the record of the signature gives the signature. -/
theorem writeRecord_signatureRecord : writeRecord signatureRecord = write signature := by
  have hpack : (signatureRecord.pack {}).1 = .ok signature := rfl
  rw [writeRecord, hpack]
  rfl

/-- The signature and the chunks before the pixel data. -/
theorem writeInfo_eq {image : Image} (hpalette : ∀ entry ∈ image.palette, entry.IsBytes) :
    writeInfo image = (do
      let type ← lift ((checkHeader image).mapError .diagnostic)
      write signature
      (infoPlan image type).run) := by
  have hheader (type : ColorType) := writeChunk_eq_run isType_header
    (steady_headerRecord image.width image.height image.bitDepth type image.interlace) rfl
  have hintent : writeChunk intentType (intentData image) =
      (Plan.ofData intentType (intentData image)).run :=
    writeChunk_eq_run isType_intent (steady_numberField _ _) rfl
  simp only [intentData] at hintent
  simp only [writeInfo, writeRecord_signatureRecord, infoPlan, Plan.run_andThen, Plan.run_when,
    ← writePalette_eq hpalette, ← writeGamma_eq, ← writeChromaticities_eq, intentData, ← hintent,
    hheader]
  cases image.given.gamma <;> cases image.given.intent <;> cases image.given.chromaticities <;>
    cases image.given.palette <;> simp

theorem writeChunk_of_length_lt {type : Octets} (htype : IsType type) {octets : Octets}
    (h : octets.length < UInt32.size) :
    writeChunk type (octetField octets) = writeFrame ⟨type, octets⟩ := by
  have hchunk : chunk? type (octetField octets) = some ⟨type, octets⟩ :=
    chunk?_eq_some.2 ⟨rfl, h, rfl⟩
  simp [writeChunk_octetField htype, Plan.ofData, hchunk, Plan.run, lift]

/-- The chunks that hold an image; all of them are short. -/
theorem writeImage_eq (image : Image) (data : Octets) :
    writeImage image data = (do (dataPlan (← lift (imageData image data))).run) := by
  have hpieces (pieces : List Octets) (h : ∀ piece ∈ pieces, piece.length < UInt32.size) :
      (pieces.forM fun piece => writeChunk dataType (octetField piece)) =
        (pieces.map fun piece => ⟨dataType, piece⟩).forM writeFrame := by
    induction pieces with
    | nil => rfl
    | cons piece rest ih =>
      rw [List.forM_eq_forM, List.forM_eq_forM] at ih ⊢
      rw [List.forM_cons, writeChunk_of_length_lt isType_data (h piece List.mem_cons_self),
        ih fun piece hmem => h piece (List.mem_cons_of_mem _ hmem)]
      rfl
  rw [writeImage]
  congr 1
  funext raw
  rw [hpieces _ fun piece hmem => ?_]
  · simp [Plan.run, dataPlan, lift]
  · have hlength := (Octets.length_le_of_mem_pieces hmem).2
    exact Nat.lt_of_le_of_lt hlength (by decide)

/-- The last chunk, and the end of all writes. -/
theorem writeEnd_eq :
    writeEnd = (do
      writeFrame ⟨endType, []⟩
      lift ((← get).sink.flush.mapError fun reason => .ofCause (.writeFailed reason))) := by
  rw [writeEnd, writeChunk_of_length_lt isType_end (by decide)]
  congr 1
  funext _
  congr 1
  funext writer
  cases writer.sink.flush <;> simp [lift, mapError_ok, mapError_error, fail]

/-! ## What has been written -/

/-- Compared to a state before, the writer has written the chunks, one write each. -/
structure Adds (before after : Writer) (chunks : List Chunk) : Prop where
  written : after.sink.written = before.sink.written ++ chunks.map Chunk.encode
  types : after.types = before.types ++ chunks.map Chunk.type
  reasons : after.sink.reasons = before.sink.reasons

theorem Adds.refl (writer : Writer) : Adds writer writer [] :=
  ⟨by simp, by simp, rfl⟩

theorem Adds.trans {before middle after : Writer} {chunks more : List Chunk}
    (h : Adds before middle chunks) (h' : Adds middle after more) :
    Adds before after (chunks ++ more) where
  written := by simp [h'.written, h.written]
  types := by simp [h'.types, h.types]
  reasons := h'.reasons.trans h.reasons

/-- The failure is that the sink of the writer takes no more. -/
def Refuses (writer : Writer) (failure : Failure) : Prop :=
  ∃ reason ∈ writer.sink.reasons, failure = .ofCause (.writeFailed reason)

/-- A write takes all of the octets or none. -/
theorem outcome_write (octets : Octets) (writer : Writer) :
    Outcome (fun _ after => after.sink.written = writer.sink.written ++ [octets] ∧
        after.types = writer.types ∧ after.sink.reasons = writer.sink.reasons)
      (fun failure after => after = writer ∧ writer.Refuses failure) (write octets writer) := by
  cases hroom : writer.sink.room with
  | none =>
    have hwrite : writer.sink.write octets =
        .ok { writer.sink with written := writer.sink.written ++ [octets] } := by
      simp [Sink.write, hroom]
    simp [write, hwrite, Outcome, Sink.reasons]
  | some entry =>
    obtain ⟨room, reason⟩ := entry
    cases room with
    | zero =>
      have hwrite : writer.sink.write octets = .error reason := by simp [Sink.write, hroom]
      simp only [write, hwrite]
      exact ⟨rfl, reason, by simp [Sink.reasons, hroom], rfl⟩
    | succ room =>
      have hwrite : writer.sink.write octets = .ok { writer.sink with
          written := writer.sink.written ++ [octets], room := some (room, reason) } := by
        simp [Sink.write, hroom]
      simp [write, hwrite, Outcome, Sink.reasons, hroom]

theorem outcome_writeFrame (chunk : Chunk) (writer : Writer) :
    Outcome (fun _ after => Adds writer after [chunk])
      (fun failure after => after = writer ∧ writer.Refuses failure)
      (writeFrame chunk writer) := by
  refine .bind (outcome_write _ _) ?_
  intro _ after h
  obtain ⟨hwritten, htypes, hreasons⟩ := h
  exact ⟨hwritten, by simp [htypes], hreasons⟩

end Writer

/-- A plan is carried out as a whole, or up to the first write that the sink refuses. -/
theorem Plan.outcome_run (plan : Plan) (writer : Writer) :
    Outcome (fun _ after => plan.result = .ok () ∧ writer.Adds after plan.chunks)
      (fun failure after => plan.result = .error failure ∧ writer.Adds after plan.chunks ∨
        ∃ done chunk, done ++ [chunk] <+: plan.chunks ∧ writer.Adds after done ∧
          writer.Refuses failure)
      (plan.run writer) := by
  obtain ⟨chunks, result⟩ := plan
  have hframes (chunks : List Chunk) (writer : Writer) :
      Outcome (fun _ after => writer.Adds after chunks)
        (fun failure after => ∃ done chunk, done ++ [chunk] <+: chunks ∧ writer.Adds after done ∧
          writer.Refuses failure)
        (chunks.forM Writer.writeFrame writer) := by
    induction chunks generalizing writer with
    | nil => exact .pure (.refl writer)
    | cons chunk rest ih =>
      rw [List.forM_eq_forM, List.forM_cons]
      refine .bind ((Writer.outcome_writeFrame chunk writer).mono_fault ?_) ?_
      · rintro failure after ⟨rfl, hrefuses⟩
        exact ⟨[], chunk, ⟨rest, rfl⟩, .refl after, hrefuses⟩
      · intro _ middle hadds
        refine (ih middle).mono (fun _ after h => hadds.trans h) ?_
        rintro failure after ⟨done, last, hbegins, hdone, reason, hmem, rfl⟩
        exact ⟨chunk :: done, last, List.cons_prefix_cons.2 ⟨rfl, hbegins⟩, hadds.trans hdone,
          reason, hadds.reasons ▸ hmem, rfl⟩
  refine .bind ((hframes chunks writer).mono (fun _ _ h => h) fun _ _ h => .inr h) ?_
  intro _ after hadds
  cases result with
  | ok done => exact ⟨rfl, hadds⟩
  | error failure => exact .inl ⟨rfl, hadds⟩

/-- If the sink takes everything, a plan that comes to a good end is carried out. -/
theorem Plan.succeeds_run {plan : Plan} {writer : Writer} (hresult : plan.result = .ok ())
    (hreasons : writer.sink.reasons = []) :
    Succeeds (fun _ after => writer.Adds after plan.chunks) (plan.run writer) := by
  refine (outcome_run plan writer).mono (fun _ _ h => h.2) ?_
  rintro failure after (⟨hfailed, -⟩ | ⟨done, chunk, -, -, reason, hreason, -⟩)
  · rw [hresult] at hfailed
    cases hfailed
  · rw [hreasons] at hreason
    cases hreason

/-! ## What plans consist of -/

/-- The chunk has a frame: a type of four octets, and data whose length fits four octets. -/
structure Chunk.HasFrame (chunk : Chunk) : Prop where
  type_length : chunk.type.length = 4
  data_length : chunk.data.length < UInt32.size

namespace Plan

/-- The plan writes chunks of the given types, all of them if it comes to a good end, and something
is known of each chunk. -/
structure Follows (about : Chunk → Prop) (types : List Octets) (plan : Plan) : Prop where
  types_prefix : plan.chunks.map Chunk.type <+: types
  types_eq : plan.result = .ok () → plan.chunks.map Chunk.type = types
  about : ∀ chunk ∈ plan.chunks, about chunk

variable {about : Chunk → Prop}

theorem Follows.andThen {types others : List Octets} {plan next : Plan}
    (h : plan.Follows about types) (hnext : next.Follows about others) :
    (plan.andThen next).Follows about (types ++ others) := by
  obtain ⟨chunks, result⟩ := plan
  cases result with
  | error failure =>
    exact ⟨h.types_prefix.trans (List.prefix_append _ _), by rintro ⟨⟩, h.about⟩
  | ok done =>
    have htypes : chunks.map Chunk.type = types := h.types_eq rfl
    refine ⟨?_, fun hok => ?_, fun chunk hmem => ?_⟩
    · simpa [Plan.andThen, htypes] using hnext.types_prefix
    · have := hnext.types_eq hok
      simp [Plan.andThen, htypes, this]
    · rcases List.mem_append.1 hmem with hmem | hmem
      · exact h.about chunk hmem
      · exact hnext.about chunk hmem

theorem Follows.when {types : List Octets} {plan : Plan} (condition : Bool)
    (h : condition = true → plan.Follows about types) :
    (Plan.when condition plan).Follows about (if condition then types else []) := by
  cases condition with
  | false => exact ⟨List.nil_prefix, fun _ => rfl, by rintro _ ⟨⟩⟩
  | true => exact h rfl

theorem follows_ofData {type : Octets} {data : Field}
    (h : ∀ octets, data.raw = .ok octets → octets.length < UInt32.size → about ⟨type, octets⟩) :
    (ofData type data).Follows about [type] := by
  cases hchunk : chunk? type data with
  | none =>
    simp only [ofData, hchunk]
    exact ⟨List.nil_prefix, by rintro ⟨⟩, by rintro _ ⟨⟩⟩
  | some chunk =>
    obtain ⟨hraw, hlength, rfl⟩ := chunk?_eq_some.1 hchunk
    simp only [ofData, hchunk]
    refine ⟨List.prefix_rfl, fun _ => rfl, fun found hmem => ?_⟩
    rw [List.mem_singleton.1 hmem]
    exact h _ hraw hlength

theorem follows_ofNumbers {type : Octets} {data : Except Double.NoInteger Field}
    (h : ∀ octets : Octets, octets.length < UInt32.size → about ⟨type, octets⟩) :
    (ofNumbers type data).Follows about [type] := by
  cases data with
  | error fault => exact ⟨List.nil_prefix, by rintro ⟨⟩, by rintro _ ⟨⟩⟩
  | ok data => exact follows_ofData fun octets _ => h octets

end Plan

/-- The types of the chunks before the pixel data. -/
def infoTypes (given : Given) : List Octets :=
  [headerType] ++ ((if given.gamma then [gammaType] else []) ++
    ((if given.intent then [intentType] else []) ++
    ((if given.chromaticities then [chromaticityType] else []) ++
    (if given.palette then [paletteType] else []))))

/-- What is known of the chunks before the pixel data: they have frames, the header tells the size
and the form of the pixels, and the palette holds the entries of the image. -/
structure InfoChunk (header : Header) (palette : List Rgb) (chunk : Chunk) : Prop
    extends chunk.HasFrame where
  header : chunk.type = headerType → chunk.data = header.octets
  palette : chunk.type = paletteType → chunk.data = paletteOctets palette

theorem InfoChunk.of_ne {header : Header} {palette : List Rgb} {type octets : Octets}
    (htype : type.length = 4) (hheader : type ≠ headerType) (hpalette : type ≠ paletteType)
    (hlength : octets.length < UInt32.size) : InfoChunk header palette ⟨type, octets⟩ where
  type_length := htype
  data_length := hlength
  header h := absurd h hheader
  palette h := absurd h hpalette

/-- The plan of the chunks before the pixel data follows the types that are prescribed. -/
theorem follows_infoPlan {image : Image} {header : Header} (hlegal : header.Legal)
    (hwidth : image.width = header.width) (hheight : image.height = header.height)
    (hdepth : image.bitDepth = header.bitDepth) (hinterlace : image.interlace = header.interlace)
    (hpalette : ∀ entry ∈ image.palette, entry.IsBytes) :
    (infoPlan image header.type).Follows (InfoChunk header image.palette)
      (infoTypes image.given) := by
  refine .andThen (Plan.follows_ofData fun octets hraw hlength => ?_) <|
    .andThen (.when _ fun _ => Plan.follows_ofNumbers fun octets hlength => ?_) <|
    .andThen (.when _ fun _ => Plan.follows_ofData fun octets _ hlength => ?_) <|
    .andThen (.when _ fun _ => Plan.follows_ofNumbers fun octets hlength => ?_) <|
    .when _ fun _ => Plan.follows_ofData fun octets hraw hlength => ?_
  · rw [hwidth, hheight, hdepth, hinterlace, raw_headerRecord hlegal] at hraw
    cases hraw
    exact ⟨⟨rfl, hlength⟩, fun _ => rfl,
      fun h => absurd h (show headerType ≠ paletteType by decide)⟩
  · exact .of_ne rfl (by decide) (by decide) hlength
  · exact .of_ne rfl (by decide) (by decide) hlength
  · exact .of_ne rfl (by decide) (by decide) hlength
  · rw [raw_paletteArray hpalette] at hraw
    cases hraw
    exact ⟨⟨rfl, hlength⟩, fun h => absurd h (show paletteType ≠ headerType by decide),
      fun _ => rfl⟩

end ScriptedPng.Png
