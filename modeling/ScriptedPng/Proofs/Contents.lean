import ScriptedPng.Proofs.Block.Told
import ScriptedPng.Proofs.Run

/-!
# Runs tell the contents of blocks

Whatever the source is, a run that comes to a good end has been in front of the pieces of some
contents, one after the other. The image is what they add up to. All that comes before the pixel
data has been written by one step, for the very image that the run leaves behind; then the octets of
each data segment have followed.

## Main definitions

* `Compilation.Gives` — the chunks that a block of pixels or data becomes.
* `Compilation.Written` — what has been written after blocks with given contents.
* `Compilation.Tells` — a compilation has come to where it is by given contents.

## Main statements

* `Compilation.outcome_block_tells` — a block tells a further content.
* `Compilation.outcome_run_tells` — a run tells the contents of its source.
-/

namespace ScriptedPng

open Block Diagnostic Png

namespace Png.Writer

/-! ## Chunks that have been added -/

-- Statements about writing a chunk are not to be unfolded into running the writer.
attribute [local irreducible] Writer.writeChunk

/-- A block of data becomes one chunk. -/
theorem outcome_writeData_adds (octets : Octets) (writer : Writer) :
    Outcome (fun _ after => writer.Adds after [⟨dataType, octets⟩]) (fun _ _ => True)
      (writeChunk dataType (octetField octets) writer) := by
  rw [writeChunk_octetField isType_data]
  refine (Plan.outcome_run _ writer).mono ?_ fun _ _ _ => trivial
  rintro _ after ⟨hresult, hadds⟩
  cases hchunk : chunk? dataType (octetField octets) with
  | none =>
    rw [Plan.ofData, hchunk] at hresult
    cases hresult
  | some chunk =>
    obtain ⟨type, data⟩ := chunk
    obtain ⟨hraw, -, rfl⟩ := chunk?_eq_some.1 hchunk
    obtain rfl : octets = data := Except.ok.inj hraw
    rwa [Plan.ofData, hchunk] at hadds

/-- The pixels of an image become the chunks of their plan. -/
theorem outcome_writeImage_adds (image : Image) (octets : Octets) (writer : Writer) :
    Outcome (fun _ after => ∃ raw, imageData image octets = .ok raw ∧
        writer.Adds after (dataPlan raw).chunks)
      (fun _ _ => True) (writeImage image octets writer) := by
  rw [writeImage_eq]
  cases hraw : imageData image octets with
  | error failure => trivial
  | ok raw =>
    refine (Plan.outcome_run (dataPlan raw) writer).mono ?_ fun _ _ _ => trivial
    rintro _ after ⟨-, hadds⟩
    exact ⟨raw, rfl, hadds⟩

/-- The end of a datastream is one chunk. -/
theorem outcome_writeEnd_adds (writer : Writer) :
    Outcome (fun _ after => writer.Adds after [lastChunk]) (fun _ _ => True) (writeEnd writer) := by
  rw [writeEnd_eq]
  refine .bind ((outcome_writeFrame lastChunk writer).mono_fault fun _ _ _ => trivial) ?_
  rintro _ after hadds
  change Outcome _ _ (lift (after.sink.flush.mapError fun reason =>
    .ofCause (.writeFailed reason)) after)
  cases after.sink.flush with
  | ok done => exact hadds
  | error reason => trivial

end Png.Writer

namespace Block.Content

/-- The block gives pixels. -/
def IsPixels (block : Content) : Prop :=
  block.keyword = .data ∨ block.keyword = .pixels

theorem not_isPixels {names : List Keyword} {blocks : List Content}
    (hnames : blocks.map keyword = names) (h : .data ∉ names ∧ .pixels ∉ names) :
    ∀ block ∈ blocks, ¬ block.IsPixels := by
  subst hnames
  rintro block hmem (hdata | hpixels)
  · exact h.1 (hdata ▸ List.mem_map_of_mem hmem)
  · exact h.2 (hpixels ▸ List.mem_map_of_mem hmem)

end Block.Content

namespace Compilation

attribute [local irreducible] Writer.writeChunk

variable {sink : Sink} {source : Source} {image : Image} {blocks : List Content}
  {compilation : Compilation}

/-! ## What has been written -/

/-- The chunks that a block of pixels or data becomes: its octets as they are, or the pixels of the
image after compression. -/
inductive Gives (image : Image) : Content → List Chunk → Prop
  | data {digits : List Char} {octets : Octets}
      (h : Segment.decode .hex (String.ofList digits) = .ok octets) :
      Gives image (.data digits) [⟨dataType, octets⟩]
  | pixels {digits : List Char} {octets raw : Octets}
      (h : Segment.decode (alphabet image) (String.ofList digits) = .ok octets)
      (hlength : octets.length = image.width * image.height * image.pixelSize)
      (hraw : imageData image octets = .ok raw) :
      Gives image (.pixels digits) (dataPlan raw).chunks

theorem Gives.isPixels {block : Content} {chunks : List Chunk} (h : Gives image block chunks) :
    block.IsPixels := by
  cases h
  · exact .inl rfl
  · exact .inr rfl

theorem isPixels_of_gives {chunks : List Chunk} (h : Items (Gives image) blocks chunks) :
    ∀ block ∈ blocks, block.IsPixels := by
  induction h with
  | nil => simp
  | cons h _ ih => exact List.forall_mem_cons.2 ⟨h.isPixels, ih⟩

/-- What has been written after blocks with the contents, for the image: nothing before the first
pixels, and then all that comes before the pixel data, with what the blocks give behind it. -/
inductive Written (sink : Sink) (image : Image) : List Content → Writer → Prop
  | waiting {blocks : List Content} (h : ∀ block ∈ blocks, ¬ block.IsPixels) :
      Written sink image blocks (.ofSink sink)
  | begun {front rest : List Content} {data : List Chunk} {begun writer : Writer}
      (hfront : ∀ block ∈ front, ¬ block.IsPixels) (hne : rest ≠ [])
      (hinfo : Writer.writeInfo image (.ofSink sink) = .ok () begun)
      (hdata : Items (Gives image) rest data) (hadds : begun.Adds writer data) :
      Written sink image (front ++ rest) writer

variable {names : List Keyword} {writer : Writer}

/-- Without pixels, nothing has been written. -/
theorem Written.eq_ofSink (h : Written sink image blocks writer)
    (hnone : ∀ block ∈ blocks, ¬ block.IsPixels) : writer = .ofSink sink := by
  cases h with
  | waiting => rfl
  | @begun front rest _ _ _ _ hne _ hdata _ =>
    obtain ⟨block, hmem⟩ := List.exists_mem_of_ne_nil rest hne
    exact absurd (isPixels_of_gives hdata block hmem) (hnone block (List.mem_append_right _ hmem))

/-- With the first pixels, all that comes before them has been written. -/
def PixelsBegun (compilation : Compilation) (begun : Writer) : Prop :=
  if compilation.progress.hasPixels then begun = compilation.writer
  else Writer.writeInfo compilation.image compilation.writer = .ok () begun

/-- A block of pixels goes on with what has been written. -/
theorem Written.pixels (h : Written sink compilation.image blocks compilation.writer)
    (hprogress : compilation.progress.Matches (blocks.map Content.keyword)) {begun : Writer}
    (hstarted : PixelsBegun compilation begun) {block : Content} {chunks : List Chunk}
    (hgives : Gives compilation.image block chunks) (hadds : begun.Adds writer chunks) :
    Written sink compilation.image (blocks ++ [block]) writer := by
  by_cases hnone : ∀ block ∈ blocks, ¬ block.IsPixels
  · have hempty := h.eq_ofSink hnone
    have hpixels : compilation.progress.hasPixels = false := by
      rw [hprogress.hasPixels_eq, decide_eq_false_iff_not]
      rintro (hmem | hmem) <;> obtain ⟨block, hblock, heq⟩ := List.mem_map.1 hmem
      · exact hnone block hblock (.inl heq)
      · exact hnone block hblock (.inr heq)
    simp only [PixelsBegun, hpixels, Bool.false_eq_true, if_false, hempty] at hstarted
    exact .begun hnone (by simp) hstarted (.singleton hgives) hadds
  · generalize hwriter : compilation.writer = before at h
    cases h with
    | waiting hwaiting => exact absurd hwaiting hnone
    | @begun front rest data first _ hfront hne hinfo hdata hbefore =>
      obtain ⟨last, hmem⟩ := List.exists_mem_of_ne_nil rest hne
      have hpixels : compilation.progress.hasPixels = true := by
        have hkeyword := List.mem_map_of_mem (f := Content.keyword)
          (List.mem_append_right front hmem)
        rw [hprogress.hasPixels_eq, decide_eq_true_iff]
        rcases isPixels_of_gives hdata last hmem with heq | heq
        · exact .inl (heq ▸ hkeyword)
        · exact .inr (heq ▸ hkeyword)
      rw [PixelsBegun, if_pos hpixels, hwriter] at hstarted
      subst hstarted
      rw [List.append_assoc]
      exact .begun hfront (by simp) hinfo (hdata.concat hgives) (hbefore.trans hadds)

/-! ## Bodies -/

theorem outcome_reader_told {keyword : Keyword} {action : BodyM Unit}
    (h : reader? keyword = some action) {body : Body} (hplain : Lexer.Plain body.lexer) :
    Outcome (fun _ after => Told keyword body after) (fun _ _ => True) (action body) := by
  cases keyword <;> cases h
  · exact outcome_header_told hplain
  · exact outcome_palette_told hplain
  · exact outcome_chromaticities_told hplain
  · exact outcome_gamma_told hplain
  · exact outcome_intent_told hplain

/-- Starting the pixels writes at most what comes before them. -/
theorem outcome_startPixels_started (compilation : Compilation) :
    Outcome (fun _ after => PixelsBegun compilation after.writer ∧
        after.progress = compilation.progress ∧ after.toBody = compilation.toBody)
      (fun _ _ => True) (startPixels compilation) := by
  rw [startPixels_eq]
  refine .ite (fun hpixels => ?_) fun hpixels => ?_
  · exact .pure ⟨by rw [PixelsBegun, if_pos hpixels], rfl, rfl⟩
  simp only [write]
  cases hresult : Writer.writeInfo compilation.image compilation.writer with
  | error failure begun => trivial
  | ok _ begun => exact ⟨by rw [PixelsBegun, if_neg hpixels, hresult], rfl, rfl⟩

/-- A body of pixels or data has been read to the end and written. -/
structure Segmented (block : Content) (digits : List Char) (compilation after : Compilation) :
    Prop where
  written : ∃ begun chunks, PixelsBegun compilation begun ∧ Gives compilation.image block chunks ∧
    begun.Adds after.writer chunks
  went : Went [.segment digits] id compilation.toBody after.toBody
  progress : after.progress = compilation.progress

/-- A block of pixels starts the pixels, reads a data segment and goes on with its octets. -/
theorem outcome_segment_told (hplain : Lexer.Plain compilation.lexer) {alphabet : Segment.Alphabet}
    {handle : Octets → CompileM Unit} (block : List Char → Content)
    (hhandle : ∀ digits octets (state : Compilation),
      Segment.decode alphabet (String.ofList digits) = .ok octets →
      Outcome (fun _ after => (∃ chunks, Gives compilation.image (block digits) chunks ∧
          state.writer.Adds after.writer chunks) ∧ after.progress = state.progress ∧
          after.toBody = state.toBody)
        (fun _ _ => True) (handle octets state)) :
    Outcome (fun _ after => ∃ digits, Segmented (block digits) digits compilation after)
      (fun _ _ => True)
      ((do startPixels; let octets ← read (Block.read (Lexer.collect alphabet)); handle octets)
        compilation) := by
  refine .bind (outcome_startPixels_started compilation) ?_
  rintro _ started ⟨hstarted, hprogress, hbody⟩
  rw [← hbody] at hplain
  refine .bind ((outcome_read (tells_collect alphabet started.toBody hplain)).mono_fault
    fun _ _ _ => trivial) ?_
  rintro octets state ⟨⟨_, ⟨digits, hoctets, rfl⟩, hwent⟩, hsame, hwriter⟩
  rw [hbody] at hwent
  refine (hhandle digits octets state hoctets).mono_post ?_
  rintro _ after ⟨⟨chunks, hgives, hadds⟩, hlast, hafter⟩
  rw [hwriter] at hadds
  exact ⟨digits, ⟨started.writer, chunks, hstarted, hgives, hadds⟩, hafter ▸ hwent,
    hlast.trans (hsame.trans hprogress)⟩

theorem outcome_data_told (hplain : Lexer.Plain compilation.lexer) :
    Outcome (fun _ after => ∃ digits, Segmented (.data digits) digits compilation after)
      (fun _ _ => True) (data compilation) := by
  refine outcome_segment_told hplain .data fun digits octets state hoctets => ?_
  refine (outcome_write (Writer.outcome_writeData_adds octets state.writer)).mono ?_
    fun _ _ _ => trivial
  rintro _ after ⟨hadds, hsame, hbody⟩
  exact ⟨⟨_, .data hoctets, hadds⟩, hsame, hbody⟩

theorem outcome_pixels_told (hplain : Lexer.Plain compilation.lexer) :
    Outcome (fun _ after => ∃ digits, Segmented (.pixels digits) digits compilation after)
      (fun _ _ => True) (pixels compilation) := by
  refine outcome_segment_told hplain .pixels fun digits octets state hoctets => ?_
  refine .ite (fun hlength => ?_) fun _ => trivial
  refine (outcome_write (Writer.outcome_writeImage_adds compilation.image octets
    state.writer)).mono ?_ fun _ _ _ => trivial
  rintro _ after ⟨⟨raw, hraw, hadds⟩, hsame, hbody⟩
  exact ⟨⟨_, .pixels hoctets hlength hraw, hadds⟩, hsame, hbody⟩

/-! ## Blocks -/

/-- A compilation of the source has come to where it is by blocks with the contents. -/
structure Tells (source : Source) (sink : Sink) (blocks : List Content)
    (compilation : Compilation) : Prop where
  went : ∃ pieces, Items Content.Spelled blocks pieces ∧
    Went pieces (fun image => blocks.foldl Content.apply image) { lexer := .ofSource source }
      compilation.toBody
  progress : compilation.progress.Matches (blocks.map Content.keyword)
  written : Written sink compilation.image blocks compilation.writer

theorem piece_of_keyword? {token : Token} {keyword : Keyword}
    (h : keyword? token = some keyword) : token.piece = .bare keyword.name := by
  simp only [keyword?] at h
  split at h
  · cases h
  · rename_i hquoted
    exact piece_eq ⟨by simpa using hquoted, (Keyword.name_of_ofName? h).symm⟩

theorem tells_openBody : Block.Tells (fun _ pieces => pieces = [.bare "\x7b"]) openBody := by
  refine tells_next (fun _ => trivial) fun token => .ite (fun his => ?_) fun _ => .throw _
  rw [piece_eq his]
  exact .pure rfl

/-- The pieces of a further block go behind those before. -/
theorem Tells.concat (h : Tells source sink blocks compilation) {block : Content}
    {pieces : List Piece} {after : Compilation} (hspelled : block.Spelled pieces)
    (hwent : Went pieces (Content.apply · block) compilation.toBody after.toBody)
    (hprogress : after.progress = compilation.progress.add block.keyword)
    (hwritten : Written sink after.image (blocks ++ [block]) after.writer) :
    Tells source sink (blocks ++ [block]) after where
  went := by
    obtain ⟨front, hfront, hbefore⟩ := h.went
    refine ⟨front ++ pieces, hfront.concat hspelled, ?_⟩
    simpa using hbefore.trans hwent
  progress := by
    rw [hprogress, List.map_append]
    exact h.progress.add block.keyword
  written := hwritten

variable {keyword : Keyword} {opened : Body}

/-- A block whose body is only read leaves the writer alone, and comes before all pixels. -/
theorem Tells.reader (h : Tells source sink blocks compilation) {action : BodyM Unit}
    (haction : reader? keyword = some action) {color : ColorFlags}
    (hallowed : Progress.Allowed (blocks.map Content.keyword) color keyword)
    (hopened : Went [.bare keyword.name, .bare "\x7b"] id compilation.toBody opened) :
    Outcome (fun _ after => ∃ block, Tells source sink (blocks ++ [block])
        { after with progress := after.progress.add keyword })
      (fun _ _ => True) (Compilation.body keyword { compilation with toBody := opened }) := by
  rw [body_of_reader haction]
  refine (outcome_read (outcome_reader_told haction hopened.plain)).mono ?_ fun _ _ _ => trivial
  rintro _ after ⟨⟨block, more, rfl, hspelled, hwent⟩, hsame, hwriter⟩
  obtain ⟨hnone, hdata, hpixels⟩ := not_mem_of_reader haction hallowed
  have hblocks := Content.not_isPixels rfl hnone
  refine ⟨block, h.concat hspelled (hopened.trans hwent) (by rw [hsame]) ?_⟩
  rw [show after.writer = .ofSink sink from hwriter.trans (h.written.eq_ofSink hblocks)]
  refine .waiting fun found hmem => ?_
  rcases List.mem_append.1 hmem with hmem | hmem
  · exact hblocks found hmem
  · rw [List.mem_singleton.1 hmem]
    exact fun hfound => hfound.elim hdata hpixels

/-- A block of pixels leaves the image alone, and goes on with what has been written. -/
theorem Tells.segment (h : Tells source sink blocks compilation)
    (hopened : Went [.bare keyword.name, .bare "\x7b"] id compilation.toBody opened)
    {block : Content} {digits : List Char} {after : Compilation} (hname : block.keyword = keyword)
    (hpixels : ∀ image, Content.apply image block = image)
    (hspelled : block.Spelled [.bare keyword.name, .bare "\x7b", .segment digits])
    (hdone : Segmented block digits { compilation with toBody := opened } after) :
    ∃ block, Tells source sink (blocks ++ [block])
      { after with progress := after.progress.add keyword } := by
  obtain ⟨⟨begun, chunks, hstarted, hgives, hadds⟩, hwent, hsame⟩ := hdone
  have himage : opened.image = compilation.image := hopened.image_eq
  have hafter : after.image = compilation.image := hwent.image_eq.trans himage
  have hall := hopened.trans hwent
  refine ⟨block, h.concat hspelled ⟨hall.plain, ?_, hall.trail⟩ (by rw [hsame, hname]) ?_⟩
  · exact hall.image_eq.trans (hpixels _).symm
  · have hbefore : PixelsBegun compilation begun := by
      simpa only [PixelsBegun, himage] using hstarted
    rw [himage] at hgives
    rw [show ({ after with progress := _ } : Compilation).image = compilation.image from hafter]
    exact h.written.pixels h.progress hbefore hgives hadds

/-- A block that is compiled tells a further content. -/
theorem outcome_block_tells (h : Tells source sink blocks compilation) {token : Token} {body : Body}
    (htoken : Went [token.piece] id compilation.toBody body) :
    Outcome (fun _ after => ∃ block, Tells source sink (blocks ++ [block]) after)
      (fun _ _ => True) (block token { compilation with toBody := body }) := by
  refine (outcome_block (fun _ after => ∃ block, Tells source sink (blocks ++ [block]) after)
    (fun _ => trivial) ((tells_openBody body htoken.plain).mono (fun _ _ h => h)
      fun _ _ _ => trivial) (fun _ _ _ _ _ _ => trivial) ?_).mono_post fun _ _ ⟨_, _, h⟩ => h
  rintro keyword opened hkeyword ⟨_, rfl, hopened⟩ hcheck
  have hallowed := (h.progress.check_eq_ok_iff_allowed _ _).1 hcheck
  have hpieces := htoken.trans hopened
  rw [piece_of_keyword? hkeyword] at hpieces
  cases keyword with
  | header | palette | chromaticities | gamma | intent => exact h.reader rfl hallowed hpieces
  | data =>
    refine (outcome_data_told hopened.plain).mono_post ?_
    rintro _ after ⟨digits, hdone⟩
    exact h.segment hpieces rfl (fun _ => rfl) .data hdone
  | pixels =>
    refine (outcome_pixels_told hopened.plain).mono_post ?_
    rintro _ after ⟨digits, hdone⟩
    exact h.segment hpieces rfl (fun _ => rfl) .pixels hdone
  | _ => trivial

/-! ## Runs -/

/-- Before a block, a keyword is read; or the end of the source has been reached. -/
theorem outcome_next_tells (h : Tells source sink blocks compilation) :
    Outcome (fun found after =>
        found = none ∧ Lexer.Shows [] compilation.lexer ∧ after.image = compilation.image ∧
          after.progress = compilation.progress ∧ after.writer = compilation.writer ∨
        ∃ token body, found = some token ∧ after = { compilation with toBody := body } ∧
          Went [token.piece] id compilation.toBody body)
      (fun _ _ => True) (next compilation) := by
  obtain ⟨pieces, -, hwent⟩ := h.went
  have hnext := (Lexer.outcome_next_shows hwent.plain).and (Lexer.outcome_next_trail hwent.plain)
  refine (outcome_read (Block.outcome_read hnext)).mono ?_ fun _ _ _ => trivial
  rintro _ ⟨body, progress, writer⟩ ⟨⟨himage, ⟨hafter, -, ⟨rfl, hshows, -⟩ | ⟨token, rfl, -⟩⟩, -,
    htrail⟩, hprogress, hwriter⟩
  · exact .inl ⟨rfl, hshows, himage, hprogress, hwriter⟩
  · dsimp only at hprogress hwriter
    subst hprogress hwriter
    exact .inr ⟨token, body, rfl, rfl, hafter, himage, htrail token rfl⟩

/-- The source of a compilation consists of blocks with the contents, and all of them have been
compiled. -/
structure TellsAll (source : Source) (sink : Sink) (blocks : List Content)
    (compilation : Compilation) : Prop where
  shows : ∃ pieces, Items Content.Spelled blocks pieces ∧
    Lexer.Shows pieces (Lexer.ofSource source)
  image_eq : compilation.image = blocks.foldl Content.apply {}
  progress : compilation.progress.Matches (blocks.map Content.keyword)
  written : Written sink compilation.image blocks compilation.writer

theorem outcome_blocks_tells (hplain : Lexer.Plain (.ofSource source)) (sink : Sink) :
    Outcome (fun _ after => ∃ blocks, TellsAll source sink blocks after) (fun _ _ => True)
      (Compilation.blocks (.ofSource source sink)) := by
  have hstart : Tells source sink [] (.ofSource source sink) :=
    ⟨⟨[], .nil, .refl hplain⟩, ⟨rfl, rfl⟩, .waiting (by simp)⟩
  refine Outcome.foldEach (fun _ state => ∃ blocks, Tells source sink blocks state)
    (fun _ token state => ∃ blocks before body, Tells source sink blocks before ∧
      state = { before with toBody := body } ∧ Went [token.piece] id before.toBody body)
    ⟨[], hstart⟩ ?_ ?_
  · rintro _ state ⟨blocks, hstate⟩
    refine (outcome_next_tells hstate).mono_post ?_
    rintro _ after (⟨rfl, hshows, himage, hprogress, hwriter⟩ | ⟨token, body, rfl, rfl, hwent⟩)
    · obtain ⟨pieces, hspelled, hwent⟩ := hstate.went
      refine ⟨blocks, ⟨pieces, hspelled, ?_⟩, himage.trans hwent.image_eq, ?_, ?_⟩
      · simpa using hwent.trail.shows hplain hshows
      · exact hprogress ▸ hstate.progress
      · rw [himage, hwriter]
        exact hstate.written
    · exact ⟨blocks, state, body, hstate, rfl, hwent⟩
  · rintro _ token _ ⟨blocks, before, body, hbefore, rfl, hwent⟩
    refine (outcome_block_tells hbefore hwent).mono_post ?_
    rintro _ after ⟨block, hafter⟩
    exact ⟨blocks ++ [block], hafter⟩

/-- A run that comes to a good end has compiled the blocks of its source, and then written the last
chunk. -/
theorem outcome_run_tells (hplain : Lexer.Plain (.ofSource source)) (sink : Sink) :
    Outcome (fun _ after => ∃ blocks before, TellsAll source sink blocks
          { after with writer := before } ∧ before.Adds after.writer [Writer.lastChunk])
      (fun _ _ => True) (run (.ofSource source sink)) := by
  refine outcome_run_of_finish (outcome_blocks_tells hplain sink) ?_ fun _ _ _ _ => trivial
  rintro state ⟨blocks, hstate⟩
  rw [finish_eq]
  refine outcome_verify (fun _ _ => trivial) fun _ => ?_
  refine (outcome_write (Writer.outcome_writeEnd_adds state.writer)).mono ?_ fun _ _ _ => trivial
  rintro _ ⟨body, progress, writer⟩ ⟨hadds, hprogress, hbody⟩
  dsimp only at hprogress hbody
  subst hprogress hbody
  exact ⟨blocks, state.writer, hstate, hadds⟩

end Compilation

end ScriptedPng
