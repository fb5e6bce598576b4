import ScriptedPng.Proofs.Png.Frames
import ScriptedPng.Proofs.Png.Plan

/-!
# Calls of the writer

The writer can be called in any order, go on after any failure, and find its sink failing at any
write. Whatever has become of the calls, the stream is the signatures that could be written and the
frames of the chunks whose types the writer has recorded, in the order of the calls. A call puts out
the beginning of what it has to put out, and all of it if it succeeds.

## Main definitions

* `Png.Entry` — one write to the stream: the signature, or a frame.
* `Png.Item`, `Item.WrittenAs` — what is to be written, and the write that puts it out.
* `Writer.Emits` — an action writes some items in order, up to where it fails.
* `Png.Operation`, `Png.Call` — a call of the writer, with the state that it finds the sink in.
* `Png.readFrames?` — frames taken apart one after the other.

## Main statements

* `Call.yields_make` — what a call puts out.
* `Png.stream_of_calls` — what any calls have put out.
-/

namespace ScriptedPng.Png

open Record

/-! ## Writes -/

/-- One write to the stream. -/
inductive Entry where
  | signature
  | frame (frame : Frame)
deriving DecidableEq, Repr

namespace Entry

/-- The octets that are written. -/
def encode : Entry → Octets
  | signature => Png.signature
  | frame found => found.encode

/-- The frame, if it is one. -/
def frame? : Entry → Option Frame
  | signature => none
  | frame found => some found

end Entry

/-- Something that is to be put out by one write. -/
inductive Item where
  | signature
  /-- A chunk of a type around its data. -/
  | chunk (type : Octets) (data : Field)

/-- The write puts out the item. -/
inductive Item.WrittenAs : Item → Entry → Prop
  | signature : WrittenAs .signature .signature
  /-- A chunk is framed. Where every part in its data is stored once, the checksum is that of the
  type and the payload, and the payload is the data as it stands if that depends on nothing else. -/
  | chunk {type : Octets} {data : Field} {frame : Frame} (hframed : Framed type data frame)
      (honce : (∀ outer, data.Within outer → outer.StoresOnce) →
        frame.encode = frame.chunk.encode)
      (hraw : data.Steady → data.raw = .ok frame.payload) :
      WrittenAs (.chunk type data) (.frame frame)

theorem Item.writtenAs_of_framed {type : Octets} {data : Field} {frame : Frame}
    (h : Framed type data frame) : (Item.chunk type data).WrittenAs (.frame frame) :=
  .chunk h (fun honce => Frame.encode_eq (h.covered_eq honce)) fun hdata => (h.of_steady hdata).1

namespace Writer

/-- Compared to a state before, the writer has put out the entries, one write each, and recorded the
types of the frames among them. -/
structure Gains (before after : Writer) (entries : List Entry) : Prop where
  written : after.sink.written = before.sink.written ++ entries.map Entry.encode
  types : after.types = before.types ++ (entries.filterMap Entry.frame?).map Frame.type

theorem Gains.refl (writer : Writer) : Gains writer writer [] :=
  ⟨by simp, by simp⟩

theorem Gains.trans {before middle after : Writer} {entries more : List Entry}
    (h : Gains before middle entries) (h' : Gains middle after more) :
    Gains before after (entries ++ more) where
  written := by simp [h'.written, h.written]
  types := by simp [h'.types, h.types]

/-! ## Actions that write items -/

variable {α β : Type} {items more : List Item}

/-- The action writes the items in order; if it fails, it has written the first of them. -/
def Emits (items : List Item) (action : WriterM α) : Prop :=
  ∀ writer, Outcome
    (fun _ after => ∃ entries, Gains writer after entries ∧
      List.Forall₂ Item.WrittenAs items entries)
    (fun _ after => ∃ done entries, done <+: items ∧ Gains writer after entries ∧
      List.Forall₂ Item.WrittenAs done entries)
    (action writer)

namespace Emits

theorem pure (value : α) : Emits [] (Pure.pure value : WriterM α) :=
  fun writer => ⟨[], .refl writer, .nil⟩

theorem throw (failure : Failure) : Emits items (MonadExcept.throw failure : WriterM α) :=
  fun writer => ⟨[], [], List.nil_prefix, .refl writer, .nil⟩

theorem bind {action : WriterM α} {next : α → WriterM β} (h : Emits items action)
    (hnext : ∀ value, Emits more (next value)) : Emits (items ++ more) (action >>= next) := by
  intro writer
  refine .bind ((h writer).mono_fault ?_) ?_
  · rintro failure after ⟨done, entries, hdone, hgains, hentries⟩
    exact ⟨done, entries, hdone.trans (List.prefix_append _ _), hgains, hentries⟩
  · rintro value middle ⟨entries, hgains, hentries⟩
    refine (hnext value middle).mono ?_ ?_
    · rintro _ after ⟨others, hothers, hmore⟩
      exact ⟨entries ++ others, hgains.trans hothers, List.rel_append hentries hmore⟩
    · rintro failure after ⟨done, others, hdone, hothers, hmore⟩
      exact ⟨items ++ done, entries ++ others, (List.prefix_append_right_inj _).2 hdone,
        hgains.trans hothers, List.rel_append hentries hmore⟩

theorem get_bind {next : Writer → WriterM β} (h : ∀ writer, Emits items (next writer)) :
    Emits items (get >>= next) :=
  fun writer => h writer writer

/-- Items that are written on a condition, and the rest in either case. -/
theorem optional {condition : Prop} [Decidable condition] {yes rest : WriterM α}
    (hyes : Emits more rest → Emits (items ++ more) yes) (hrest : Emits more rest) :
    Emits ((if condition then items else []) ++ more) (if condition then yes else rest) := by
  split
  · exact hyes hrest
  · exact hrest

theorem forM {action : β → WriterM PUnit} {item : β → Item}
    (h : ∀ value, Emits [item value] (action value)) (values : List β) :
    Emits (values.map item) (values.forM action) := by
  induction values with
  | nil => exact .pure _
  | cons value rest ih => exact .bind (h value) fun _ => ih

/-- Whatever becomes of the action, it has written some of the items, and all if it has succeeded.
-/
theorem exists_entries {action : WriterM Unit} (h : Emits items action) (start : Writer) :
    ∃ done entries, done <+: items ∧ ((ended (action start)).1 = .ok () → done = items) ∧
      start.Gains (ended (action start)).2 entries ∧
      List.Forall₂ Item.WrittenAs done entries := by
  have houtcome := h start
  cases hrun : action start with
  | ok value after =>
    rw [hrun] at houtcome
    obtain ⟨entries, hgains, hentries⟩ := houtcome
    exact ⟨items, entries, List.prefix_rfl, fun _ => rfl, hgains, hentries⟩
  | error failure after =>
    rw [hrun] at houtcome
    obtain ⟨done, entries, hdone, hgains, hentries⟩ := houtcome
    exact ⟨done, entries, hdone, by rintro ⟨⟩, hgains, hentries⟩

end Emits

/-! ## The steps of writing -/

theorem outcome_lift_mapError {ε : Type} (result : Except ε α) (f : ε → Failure)
    (writer : Writer) :
    Outcome (fun value after => result = .ok value ∧ after = writer) (fun _ after => after = writer)
      (lift (result.mapError f) writer) := by
  cases result with
  | ok value => exact ⟨rfl, rfl⟩
  | error fault => exact rfl

/-- Writing a chunk puts out one frame, or fails and leaves everything as it has been. -/
theorem outcome_writeChunk (type : Octets) (data : Field) (writer : Writer) :
    Outcome (fun _ after => ∃ frame, Framed type data frame ∧ Gains writer after [.frame frame])
      (fun _ after => after = writer) (writeChunk type data writer) := by
  refine .bind (outcome_lift_mapError _ _ writer) ?_
  rintro chunk _ ⟨hchunk, rfl⟩
  have htype : type.length = 4 := by
    by_contra hlength
    rw [chunkRecord, if_neg hlength] at hchunk
    cases hchunk
  obtain rfl := Except.ok.inj ((chunkRecord_eq htype data).symm.trans hchunk)
  cases String.fromUTF8? ⟨type.toArray⟩ with
  | none => exact rfl
  | some name =>
    refine .bind (outcome_lift_mapError _ _ _) ?_
    rintro n writer ⟨hsize, rfl⟩
    cases hpack : ((Field.record .fresh chunkKind (chunkParts 0 type data 0)).pack {}).1 with
    | error fault => cases fault <;> exact rfl
    | ok octets =>
      obtain ⟨frame, hframed, rfl⟩ := exists_framed htype hsize hpack
      refine .bind ((outcome_write _ _).mono_fault fun _ _ h => h.1) ?_
      rintro _ after ⟨hwritten, htypes, -⟩
      refine ⟨frame, hframed, hwritten, ?_⟩
      simp [htypes, Entry.frame?, hframed.type_eq]

theorem emits_writeChunk (type : Octets) (data : Field) :
    Emits [.chunk type data] (writeChunk type data) := by
  intro writer
  refine (outcome_writeChunk type data writer).mono ?_ ?_
  · rintro _ after ⟨frame, hframed, hgains⟩
    exact ⟨[.frame frame], hgains, .cons (Item.writtenAs_of_framed hframed) .nil⟩
  · rintro failure after rfl
    exact ⟨[], [], List.nil_prefix, .refl after, .nil⟩

end Writer

/-! ## Operations -/

section Operations

-- Statements about writing a chunk are not to be unfolded into running the writer.
attribute [local irreducible] Writer.writeChunk

/-- An operation of the writer. -/
inductive Operation where
  /-- Writing all that comes before the pixel data. -/
  | info (image : Image)
  | chunk (type : Octets) (data : Field)
  /-- Writing the pixel data of an image. -/
  | pixels (image : Image) (data : Octets)
  | ending

/-- The chunks before the pixel data. Those with numbers that cannot be found are left out; nothing
is written from the first of these on. -/
def infoItems (image : Image) (type : ColorType) : List Item :=
  [.chunk headerType
      (headerRecord image.width image.height image.bitDepth type image.interlace)] ++
    ((if image.given.gamma then
        (gammaData image).toOption.toList.map (.chunk gammaType) else []) ++
    ((if image.given.intent then [.chunk intentType (intentData image)] else []) ++
    ((if image.given.chromaticities then
        (chromaticityData image).toOption.toList.map (.chunk chromaticityType) else []) ++
    if image.given.palette then [.chunk paletteType (paletteArray image.palette)] else [])))

namespace Operation

/-- Carries out the operation. -/
def run : Operation → WriterM Unit
  | info image => Writer.writeInfo image
  | chunk type data => Writer.writeChunk type data
  | pixels image data => Writer.writeImage image data
  | ending => Writer.writeEnd

/-- What the operation has to put out. -/
def items : Operation → List Item
  | info image =>
    match checkHeader image with
    | .ok type => .signature :: infoItems image type
    | .error _ => []
  | chunk type data => [.chunk type data]
  | pixels image data =>
    match imageData image data with
    | .ok raw => ((Zlib.compress raw).pieces (dataLimit - 1)).map fun piece =>
        .chunk dataType (octetField piece)
    | .error _ => []
  | ending => [.chunk endType (octetField [])]

end Operation

namespace Writer

/-- A chunk with numbers is written once they are found. -/
theorem emits_numbers {β : Type} {type : Octets} {numbers : Except Double.NoInteger β}
    {data : β → Field} {next : WriterM Unit} {more : List Item} (hnext : Emits more next) :
    Emits ((numbers.map data).toOption.toList.map (.chunk type) ++ more) (do
      let found ← lift (numbers.mapError .number)
      writeChunk type (data found)
      next) := by
  cases numbers with
  | error fault => exact .throw _
  | ok found =>
    rw [mapError_ok, lift, pure_bind]
    exact .bind (emits_writeChunk _ _) fun _ => hnext

/-- The signature comes first, and then the chunks before the pixel data. -/
theorem exists_writeInfo {image : Image} {type : ColorType} (h : checkHeader image = .ok type) :
    ∃ rest, writeInfo image = (do write signature; rest) ∧ Emits (infoItems image type) rest := by
  refine ⟨_, by rw [writeInfo, h, mapError_ok, lift, pure_bind, writeRecord_signatureRecord], ?_⟩
  refine .bind (emits_writeChunk _ _) fun _ => ?_
  refine .optional emits_numbers ?_
  refine .optional (fun hrest => .bind (emits_writeChunk _ _) fun _ => hrest) ?_
  refine .optional (fun hrest => by rw [mapM_fixedPoint]; exact emits_numbers hrest) ?_
  split
  · exact emits_writeChunk _ _
  · exact .pure _

theorem emits_writeImage (image : Image) (data : Octets) :
    Emits (Operation.pixels image data).items (writeImage image data) := by
  rw [writeImage, Operation.items]
  cases imageData image data with
  | error failure => exact .throw _
  | ok raw => exact .forM (fun piece => emits_writeChunk _ _) _

theorem emits_writeEnd : Emits [.chunk endType (octetField [])] writeEnd := by
  refine .bind (emits_writeChunk _ _) fun _ => .get_bind fun writer => ?_
  split
  · exact .pure _
  · exact .throw _

end Writer

/-- What an operation puts out when the sink has so much room, and the operation has come to the
result. -/
structure Operation.Yields (operation : Operation) (room : Option (Nat × String))
    (result : Except Failure Unit) (entries : List Entry) : Prop where
  /-- The items of the operation are written in order, up to some point. -/
  begun : ∃ done, done <+: operation.items ∧ List.Forall₂ Item.WrittenAs done entries
  /-- If the operation succeeds, they are all written. -/
  complete : result = .ok () → List.Forall₂ Item.WrittenAs operation.items entries
  /-- The signature is written if the sink takes it. -/
  signature : .signature ∈ entries ↔
    .signature ∈ operation.items ∧ room.map Prod.fst ≠ some 0
  /-- A chunk that cannot be written adds nothing. -/
  refused : ∀ type data, operation = .chunk type data → result ≠ .ok () → entries = []

theorem signature_mem_iff {items : List Item} {entries : List Entry}
    (h : List.Forall₂ Item.WrittenAs items entries) :
    .signature ∈ entries ↔ .signature ∈ items := by
  induction h with
  | nil => simp
  | cons hfirst _ ih => cases hfirst <;> simp [ih]

/-- The first write is taken unless there is no room for any. -/
theorem write_eq (octets : Octets) (writer : Writer) :
    (writer.sink.room.map Prod.fst = some 0 ∧
      ∃ failure, Writer.write octets writer = .error failure writer) ∨
    (writer.sink.room.map Prod.fst ≠ some 0 ∧
      ∃ after, Writer.write octets writer = .ok () after) := by
  rcases hroom : writer.sink.room with _ | ⟨_ | room, reason⟩
  · exact .inr ⟨by simp, _, by simp only [Writer.write, Sink.write, hroom]; rfl⟩
  · exact .inl ⟨rfl, _, by simp only [Writer.write, Sink.write, hroom]; rfl⟩
  · exact .inr ⟨by simp, _, by simp only [Writer.write, Sink.write, hroom]; rfl⟩

namespace Operation

/-- An operation that has failed at once. -/
theorem yields_nil {operation : Operation} {room : Option (Nat × String)} (failure : Failure)
    (h : .signature ∈ operation.items → room.map Prod.fst = some 0) :
    operation.Yields room (.error failure) [] where
  begun := ⟨[], List.nil_prefix, .nil⟩
  complete := by rintro ⟨⟩
  signature := by simpa using h
  refused _ _ _ _ := rfl

/-- An operation without a signature puts out what its action emits. -/
theorem yields_of_emits {operation : Operation}
    (hemits : Writer.Emits operation.items operation.run)
    (hsignature : .signature ∉ operation.items)
    (hchunk : ∀ type data, operation ≠ .chunk type data) (start : Writer) :
    ∃ entries, operation.Yields start.sink.room (ended (operation.run start)).1 entries ∧
      start.Gains (ended (operation.run start)).2 entries := by
  obtain ⟨done, entries, hdone, hall, hgains, hentries⟩ := hemits.exists_entries start
  refine ⟨entries, ⟨⟨done, hdone, hentries⟩, fun hok => hall hok ▸ hentries, ?_,
    fun type data h => absurd h (hchunk type data)⟩, hgains⟩
  have hnone : .signature ∉ done := fun h => hsignature (hdone.subset h)
  simp [signature_mem_iff hentries, hsignature, hnone]

/-- Writing the information puts out the signature first, and then the chunks. -/
theorem yields_info (image : Image) (start : Writer) :
    ∃ entries, (info image).Yields start.sink.room (ended ((info image).run start)).1 entries ∧
      start.Gains (ended ((info image).run start)).2 entries := by
  rw [run]
  cases hcheck : checkHeader image with
  | error diagnostic =>
    have hrun : Writer.writeInfo image start = .error (.diagnostic diagnostic) start := by
      rw [Writer.writeInfo, hcheck]
      rfl
    rw [hrun]
    exact ⟨[], yields_nil _ (by simp [items, hcheck]), .refl start⟩
  | ok type =>
    have hitems : (info image).items = .signature :: infoItems image type := by
      rw [items, hcheck]
    obtain ⟨rest, hwriteInfo, hrest⟩ := Writer.exists_writeInfo hcheck
    rw [hwriteInfo]
    rcases write_eq Png.signature start with ⟨hfull, failure, hwrite⟩ | ⟨hroom, middle, hwrite⟩
    · rw [bind_of_error hwrite]
      exact ⟨[], yields_nil _ fun _ => hfull, .refl start⟩
    · rw [bind_of_ok hwrite]
      have hsignature := Writer.outcome_write Png.signature start
      rw [hwrite] at hsignature
      have hmiddle : start.Gains middle [.signature] :=
        ⟨hsignature.1, by simp [hsignature.2.1, Entry.frame?]⟩
      obtain ⟨done, entries, hdone, hall, hgains, hentries⟩ := hrest.exists_entries middle
      refine ⟨.signature :: entries, ⟨⟨.signature :: done, ?_, .cons .signature hentries⟩,
        fun hok => ?_, ?_, fun _ _ h => by cases h⟩, hmiddle.trans hgains⟩
      · exact hitems ▸ List.cons_prefix_cons.2 ⟨rfl, hdone⟩
      · rw [hitems, ← hall hok]
        exact .cons .signature hentries
      · simpa [hitems] using hroom

/-- What an operation puts out. -/
theorem yields_run (operation : Operation) (start : Writer) :
    ∃ entries, operation.Yields start.sink.room (ended (operation.run start)).1 entries ∧
      start.Gains (ended (operation.run start)).2 entries := by
  cases operation with
  | info image => exact yields_info image start
  | chunk type data =>
    have houtcome := Writer.outcome_writeChunk type data start
    rw [run]
    cases hrun : Writer.writeChunk type data start with
    | ok value after =>
      rw [hrun] at houtcome
      obtain ⟨frame, hframed, hgains⟩ := houtcome
      have hall := List.Forall₂.cons (Item.writtenAs_of_framed hframed) .nil
      exact ⟨[.frame frame], ⟨⟨_, List.prefix_rfl, hall⟩, fun _ => hall, by simp [items],
        fun _ _ _ h => absurd rfl h⟩, hgains⟩
    | error failure after =>
      rw [hrun] at houtcome
      obtain rfl := houtcome
      exact ⟨[], yields_nil _ (by simp [items]), .refl after⟩
  | pixels image data =>
    refine yields_of_emits (Writer.emits_writeImage image data) ?_ (fun _ _ h => by cases h) start
    rw [items]
    split <;> simp
  | ending =>
    refine yields_of_emits ?_ (by simp [items]) (fun _ _ h => by cases h) start
    exact Writer.emits_writeEnd

end Operation

/-! ## Calls -/

/-- A call of the writer. It finds the sink with so much room, and with such a fault in flushing. -/
structure Call where
  operation : Operation
  room : Option (Nat × String) := none
  flushFault : Option String := none

namespace Call

/-- What a call comes to, and the writer as it is then. -/
def make (call : Call) (writer : Writer) : Except Failure Unit × Writer :=
  ended (call.operation.run
    { writer with sink := { writer.sink with room := call.room, flushFault := call.flushFault } })

/-- What calls come to one after the other, whatever has become of those before. -/
def makeAll : List Call → Writer → List (Except Failure Unit) × Writer
  | [], writer => ([], writer)
  | call :: rest, writer =>
    let (result, writer) := call.make writer
    let (results, writer) := makeAll rest writer
    (result :: results, writer)

/-- What a call that has come to the result has put out. -/
abbrev Yields (call : Call) (result : Except Failure Unit) (entries : List Entry) : Prop :=
  call.operation.Yields call.room result entries

theorem yields_make (call : Call) (writer : Writer) :
    ∃ entries, call.Yields (call.make writer).1 entries ∧
      writer.Gains (call.make writer).2 entries := by
  obtain ⟨entries, hyields, hgains⟩ := call.operation.yields_run
    { writer with sink := { writer.sink with room := call.room, flushFault := call.flushFault } }
  exact ⟨entries, hyields, hgains.written, hgains.types⟩

/-- Whatever has become of some calls, what has been put out is what each of them has. -/
theorem gains_makeAll (calls : List Call) (writer : Writer) :
    ∃ log : List (List Entry),
      List.Forall₂ (fun call entries => call.1.Yields call.2 entries)
        (calls.zip (makeAll calls writer).1) log ∧
      writer.Gains (makeAll calls writer).2 log.flatten := by
  induction calls generalizing writer with
  | nil => exact ⟨[], .nil, .refl writer⟩
  | cons call rest ih =>
    obtain ⟨entries, hyields, hgains⟩ := yields_make call writer
    obtain ⟨log, hlog, hrest⟩ := ih (call.make writer).2
    exact ⟨entries :: log, .cons hyields hlog, hgains.trans hrest⟩

end Call

end Operations

/-! ## Reading frames back -/

theorem length_lt_of_readFrame? {stream rest : Octets} {chunk : Chunk} {checksum : Nat}
    (h : readFrame? stream = some (chunk, checksum, rest)) : rest.length < stream.length := by
  simp only [readFrame?] at h
  split at h
  · cases h
  · cases h
    simp only [List.length_drop]
    omega

/-- The chunks in the frames that the octets are made of, with the checksums behind them. -/
def readFrames? (stream : Octets) : Option (List (Chunk × Nat)) :=
  if stream = [] then some []
  else
    match h : readFrame? stream with
    | none => none
    | some (chunk, checksum, rest) =>
      have := length_lt_of_readFrame? h
      (readFrames? rest).map ((chunk, checksum) :: ·)
termination_by stream.length

theorem readFrames?_of_readFrame? {stream rest : Octets} {chunk : Chunk} {checksum : Nat}
    (h : readFrame? stream = some (chunk, checksum, rest)) :
    readFrames? stream = (readFrames? rest).map ((chunk, checksum) :: ·) := by
  have hne : stream ≠ [] := by
    rintro rfl
    cases h
  rw [readFrames?, if_neg hne]
  split
  · rename_i hnone
    rw [h] at hnone
    cases hnone
  · rename_i hsome
    rw [h] at hsome
    cases hsome
    rfl

theorem readFrames?_encode {frames : List Frame}
    (h : ∀ frame ∈ frames, frame.type.length = 4 ∧ frame.payload.length < UInt32.size) :
    readFrames? (frames.flatMap Frame.encode) =
      some (frames.map fun frame => (frame.chunk, frame.checksum)) := by
  induction frames with
  | nil => rw [List.flatMap_nil, readFrames?, if_pos rfl, List.map_nil]
  | cons frame rest ih =>
    obtain ⟨htype, hpayload⟩ := h frame List.mem_cons_self
    rw [List.flatMap_cons, readFrames?_of_readFrame? (readFrame?_encode htype hpayload _),
      ih fun frame hmem => h frame (List.mem_cons_of_mem _ hmem)]
    rfl

/-- What the relation says of the right-hand members holds of all of them. -/
theorem forall_of_forall₂ {α β : Type} {r : α → β → Prop} {q : β → Prop} {as : List α} {bs : List β}
    (hq : ∀ a b, r a b → q b) (h : List.Forall₂ r as bs) : ∀ b ∈ bs, q b := by
  induction h with
  | nil => simp
  | cons hfirst _ ih => exact List.forall_mem_cons.2 ⟨hq _ _ hfirst, ih⟩

/-- A frame that puts out an item has a type of four octets, and a payload that is not too long. -/
theorem Item.WrittenAs.fits {item : Item} {entry : Entry} (h : item.WrittenAs entry) :
    ∀ frame ∈ entry.frame?, frame.type.length = 4 ∧ frame.payload.length < UInt32.size := by
  cases h with
  | signature => simp [Entry.frame?]
  | chunk hframed =>
    rintro _ ⟨⟩
    exact ⟨hframed.type_eq ▸ hframed.type_length, hframed.fits⟩

/-- Whatever calls have been made of a new writer, with the sink failing at any write, the stream is
made of the signatures and the frames that the calls have put out, the types of the frames are those
that the writer has recorded, and the chunks can be read back from the frames. -/
theorem stream_of_calls (calls : List Call) :
    ∃ log : List (List Entry),
      List.Forall₂ (fun call entries => call.1.Yields call.2 entries)
        (calls.zip (Call.makeAll calls (.ofSink {})).1) log ∧
      (Call.makeAll calls (.ofSink {})).2.sink.octets = log.flatten.flatMap Entry.encode ∧
      (Call.makeAll calls (.ofSink {})).2.types =
        (log.flatten.filterMap Entry.frame?).map Frame.type ∧
      (∀ frame ∈ log.flatten.filterMap Entry.frame?,
        frame.type.length = 4 ∧ frame.payload.length < UInt32.size) ∧
      readFrames? ((log.flatten.filterMap Entry.frame?).flatMap Frame.encode) =
        some ((log.flatten.filterMap Entry.frame?).map fun frame =>
          (frame.chunk, frame.checksum)) := by
  obtain ⟨log, hlog, hgains⟩ := Call.gains_makeAll calls (.ofSink {})
  have hfits : ∀ frame ∈ log.flatten.filterMap Entry.frame?,
      frame.type.length = 4 ∧ frame.payload.length < UInt32.size := by
    intro frame hmem
    obtain ⟨entry, hentry, hframe⟩ := List.mem_filterMap.1 hmem
    obtain ⟨entries, hentries, hentry⟩ := List.mem_flatten.1 hentry
    obtain ⟨done, hdone⟩ := forall_of_forall₂
      (q := fun entries => ∃ done, List.Forall₂ Item.WrittenAs done entries)
      (fun _ _ h => h.begun.imp fun _ hdone => hdone.2) hlog entries hentries
    exact forall_of_forall₂
      (q := fun entry => ∀ frame ∈ entry.frame?,
        frame.type.length = 4 ∧ frame.payload.length < UInt32.size)
      (fun _ _ h => h.fits) hdone entry hentry frame hframe
  refine ⟨log, hlog, ?_, ?_, hfits, readFrames?_encode hfits⟩
  · rw [Sink.octets, hgains.written]
    simp [Writer.ofSink, List.flatMap]
  · rw [hgains.types]
    simp [Writer.ofSink]

/-- A record that stores its one part twice: a checksum of this part itself. -/
def redeclaredSeal : Field :=
  .record .fresh ⟨"Twice", [7, 6, 0], ["c"], [0, 0]⟩
    [(Field.number .fresh (.checksumOf ["c"]) wordFormat .big none (.integer 0)).asPart "c" "Twice"]

/-- The checksum is packed twice, and is another one the second time. The frame is then that of no
chunk: the octets that its own checksum covers are not those of its payload. -/
theorem ne_encode_redeclaredSeal :
    (Call.makeAll [⟨.chunk [0x74, 0x45, 0x53, 0x74] redeclaredSeal, none, none⟩]
      (.ofSink {})).2.types = [[0x74, 0x45, 0x53, 0x74]] ∧
    ∀ payload, (Call.makeAll [⟨.chunk [0x74, 0x45, 0x53, 0x74] redeclaredSeal, none, none⟩]
      (.ofSink {})).2.sink.octets ≠ Chunk.encode ⟨[0x74, 0x45, 0x53, 0x74], payload⟩ := by
  have hmade : (Call.makeAll [⟨.chunk [0x74, 0x45, 0x53, 0x74] redeclaredSeal, none, none⟩]
      (.ofSink {})).2 =
      ⟨{ written := [[0, 0, 0, 8, 0x74, 0x45, 0x53, 0x74, 0x21, 0x44, 0xdf, 0x1c, 0x5c, 0xf8, 0xb7,
          0xc4, 0x47, 0x29, 0x35, 0x9e]] }, [[0x74, 0x45, 0x53, 0x74]]⟩ := by decide +kernel
  rw [hmade]
  refine ⟨rfl, fun payload h => ?_⟩
  -- The length leaves one payload, and its checksum is another.
  have hfront : (Octets.big 4 payload.length ++ [0x74, 0x45, 0x53, 0x74]).length = 8 := by
    simp [Octets.length_big]
  have hlength : payload.length = 8 := by
    have hlengths := congrArg List.length h
    simp only [Sink.octets, List.flatten_cons, List.flatten_nil, List.append_nil, Chunk.encode,
      List.length_append, List.length_cons, List.length_nil, Octets.length_big] at hlengths
    omega
  have hpayload : [0x21, 0x44, 0xdf, 0x1c, 0x5c, 0xf8, 0xb7, 0xc4] = payload := by
    have hbehind := congrArg (fun octets => (octets.drop 8).take 8) h
    rwa [Chunk.encode, List.append_assoc, List.drop_left' hfront, List.take_left' hlength]
      at hbehind
  subst hpayload
  revert h
  decide +kernel

end ScriptedPng.Png
