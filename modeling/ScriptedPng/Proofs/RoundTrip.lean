import ScriptedPng.Proofs.PictureSource
import ScriptedPng.Proofs.Step
import ScriptedPng.Report

/-!
# From sources to pictures

A source of a picture compiles without an error, and what is written shows the picture.

## Main statements

* `Compilation.succeeds_round` — a block that is allowed is compiled.
* `Compilation.succeeds_pixels` — the pixels of a picture are read and written.
* `compile_picture` — the picture that has been written is the picture of the source.
-/

namespace ScriptedPng

open Block Png

namespace Compilation

variable {image : Image} {texts : List String} {text : String} {rest : List Char}
  {compilation : Compilation} {post : Unit → Compilation → Prop}

/-! ## Blocks -/

/-- The delimiter that opens a body is read. -/
theorem succeeds_openBody {body : Body} (h : Before image ("\x7b" :: texts) rest body) :
    Succeeds (fun _ after => Before image texts rest after) (openBody body) := by
  refine .bind (Block.succeeds_next h) ?_
  rintro _ after ⟨⟨line, rfl⟩, hafter⟩
  have his : Token.Is ⟨"\x7b", line, false⟩ "\x7b" := ⟨rfl, rfl⟩
  simp only [if_pos his]
  exact hafter

/-- The next token is read between blocks. -/
theorem succeeds_next (h : Before image (text :: texts) rest compilation.toBody) :
    Succeeds (fun found after => ∃ token : Token, found = some token ∧
        (∃ line, token = ⟨text, line, false⟩) ∧ Before image texts rest after.toBody ∧
        after.progress = compilation.progress ∧ after.writer = compilation.writer)
      (next compilation) := by
  refine (succeeds_read (Block.succeeds_next h)).mono_post ?_
  rintro _ after ⟨⟨⟨line, rfl⟩, hbefore⟩, hprogress, hwriter⟩
  exact ⟨_, rfl, ⟨line, rfl⟩, hbefore, hprogress, hwriter⟩

/-- A block whose keyword comes next, and is allowed, is compiled if its body is. -/
theorem succeeds_round {keyword : Keyword} (middle : Compilation → Prop)
    (h : Before image (keyword.name :: "\x7b" :: texts) rest compilation.toBody)
    (hcheck : compilation.progress.check image.color keyword = .ok ())
    (hbody : ∀ state : Compilation, Before image texts rest state.toBody →
      state.progress = compilation.progress → state.writer = compilation.writer →
      Succeeds (fun _ after => middle { after with progress := after.progress.add keyword })
        (body keyword state))
    (hrest : ∀ state, middle state → Succeeds post (blocks state)) :
    Succeeds post (blocks compilation) := by
  refine Outcome.foldEach_some (fun _ => middle) (succeeds_next h) ?_ fun _ => hrest
  rintro _ start ⟨⟨line, rfl⟩, hstart, hprogress, hwriter⟩
  have hkeyword : keyword? ⟨keyword.name, line, false⟩ = some keyword :=
    (if_neg Bool.false_ne_true).trans (Keyword.ofName?_name keyword)
  have hopen := succeeds_openBody hstart
  refine (outcome_block (fun _ => middle) ?_ (hopen.mono_fault fun _ _ h => h) ?_ ?_).mono_post ?_
  · rw [hkeyword]
    rintro ⟨⟩
  · intro found body cause hfound hopened hfault
    rw [hkeyword] at hfound
    cases hfound
    rw [hprogress, hopened.image_eq, hcheck] at hfault
    cases hfault
  · intro found body hfound hopened _
    rw [hkeyword] at hfound
    cases hfound
    exact hbody _ hopened hprogress hwriter
  · rintro _ after ⟨-, -, hafter⟩
    exact hafter

/-! ## Pixels -/

variable {picture : Picture} {sink : Sink} {segment blanks : List Char} {raw : Octets}

/-- The image asks for as much pixel data as the picture has. -/
theorem length_data (h : picture.Legal) : (picture.data.length : Int) =
    picture.image.width * picture.image.height * picture.image.pixelSize := by
  have hof := (Picture.describes_image h).of
  rw [hof.width, hof.height, hof.pixelSize_eq, Picture.length_data h, ← Int.natCast_mul,
    ← Int.natCast_mul, Nat.mul_left_comm, Nat.mul_assoc]

/-- With the first pixels of a picture all that comes before them is written. -/
theorem succeeds_startPixels (h : picture.Legal) (hreasons : sink.reasons = [])
    (himage : compilation.image = picture.image)
    (hpixels : compilation.progress.hasPixels = false)
    (hwriter : compilation.writer = .ofSink sink) :
    Succeeds (fun _ after => after.toBody = compilation.toBody ∧
        after.progress = compilation.progress ∧
        Writer.Wrote sink picture.infoChunks after.writer)
      (startPixels compilation) := by
  have hinfo := Picture.succeeds_writeInfo h (Picture.describes_image h) hreasons
  rw [← hwriter] at hinfo
  rw [startPixels_eq, hpixels, himage]
  refine (succeeds_write hinfo).mono_post ?_
  rintro _ after ⟨hwrote, hprogress, hbody⟩
  exact ⟨hbody, hprogress, hwrote⟩

/-- The pixels of a picture are read from their spelling and written, behind all that comes before
them. -/
theorem succeeds_pixels (h : picture.Legal) (hreasons : sink.reasons = [])
    (hraw : imageData picture.image picture.data = .ok raw)
    (hsegment : Segment.Spells picture.alphabet picture.data segment)
    (hbody : Before picture.image [] (segment ++ '\x7d' :: blanks) compilation.toBody)
    (hpixels : compilation.progress.hasPixels = false)
    (hwriter : compilation.writer = .ofSink sink) :
    Succeeds (fun _ after => Before picture.image [] blanks after.toBody ∧
        after.progress = compilation.progress ∧
        Writer.Wrote sink (picture.infoChunks ++ (dataPlan raw).chunks) after.writer)
      (pixels compilation) := by
  have himage := hbody.image_eq
  have hstart := succeeds_startPixels h hreasons himage hpixels hwriter
  change Outcome _ _ ((do
    startPixels
    let octets ← read (Block.read (Lexer.collect (alphabet compilation.image)))
    if octets.length = compilation.image.width * compilation.image.height *
        compilation.image.pixelSize then write (Writer.writeImage compilation.image octets)
    else throw (Failure.ofCause (.sizeMismatch octets.length (compilation.image.width *
      compilation.image.height * compilation.image.pixelSize)))) compilation)
  rw [himage, Picture.alphabet_image]
  refine .bind hstart ?_
  rintro _ started ⟨hsame, hprogress, hwrote⟩
  rw [← hsame] at hbody
  have hcollect := Lexer.succeeds_collect hsegment (Lexer.ahead_of_spelling hbody.spelling)
  refine .bind (succeeds_read (Block.succeeds_read hcollect)) ?_
  rintro _ collected ⟨⟨hkept, rfl, hahead⟩, hprogress', hwriter'⟩
  rw [if_pos (length_data h)]
  rw [← hwriter'] at hwrote
  refine (succeeds_write (Picture.succeeds_writeImage hraw hwrote hreasons)).mono_post ?_
  rintro _ after ⟨hwrote, hprogress'', hafter⟩
  refine ⟨?_, hprogress''.trans (hprogress'.trans hprogress), hwrote⟩
  rw [hafter]
  exact ⟨hkept.trans hbody.image_eq, _, .done, hahead⟩

/-! ## Runs -/

/-- The image has been described and nothing has been written; tokens come next. -/
structure Awaits (image : Image) (texts : List String) (rest : List Char) (progress : Progress)
    (sink : Sink) (compilation : Compilation) : Prop where
  before : Before image texts rest compilation.toBody
  progress_eq : compilation.progress = progress
  writer_eq : compilation.writer = .ofSink sink

/-- All blocks of the picture have been compiled, and all its chunks but the last one have been
written. -/
structure Finished (picture : Picture) (progress : Progress) (sink : Sink) (raw : Octets)
    (compilation : Compilation) : Prop where
  image_eq : compilation.image = picture.image
  progress_eq : compilation.progress = progress
  wrote : Writer.Wrote sink (picture.infoChunks ++ (dataPlan raw).chunks) compilation.writer

/-- The block of pixels is the last one. -/
theorem succeeds_blocks_pixels (h : picture.Legal) (hreasons : sink.reasons = [])
    (hraw : imageData picture.image picture.data = .ok raw)
    (hsegment : Segment.Spells picture.alphabet picture.data segment)
    (hblanks : ∀ c ∈ blanks, Text.isBlank c = true) {progress : Progress}
    (hcheck : progress.check picture.image.color .pixels = .ok ())
    (hpixels : progress.hasPixels = false)
    (hstate : Awaits picture.image [Keyword.pixels.name, "\x7b"] (segment ++ '\x7d' :: blanks)
      progress sink compilation) :
    Succeeds (fun _ after => Finished picture (progress.add .pixels) sink raw after)
      (blocks compilation) := by
  obtain ⟨hbefore, rfl, hwriter⟩ := hstate
  refine succeeds_round (fun after => Before picture.image [] blanks after.toBody ∧
    after.progress = compilation.progress.add .pixels ∧
    Writer.Wrote sink (picture.infoChunks ++ (dataPlan raw).chunks) after.writer)
    hbefore hcheck ?_ ?_
  · intro state hstate hprogress hsame
    refine (succeeds_pixels h hreasons hraw hsegment hstate (hprogress ▸ hpixels)
      (hsame.trans hwriter)).mono_post ?_
    rintro _ after ⟨hafter, hprogress', hwrote⟩
    exact ⟨hafter, congrArg (Progress.add .pixels) (hprogress'.trans hprogress), hwrote⟩
  · rintro state ⟨hafter, hprogress, hwrote⟩
    have hend := Lexer.succeeds_next_end hblanks (Lexer.ahead_of_spelling hafter.spelling)
    refine Outcome.foldEach_none ((succeeds_read (Block.succeeds_read hend)).mono_post ?_)
    rintro _ last ⟨⟨himage, rfl⟩, hprogress', hwriter'⟩
    exact ⟨rfl, himage.trans hafter.image_eq, hprogress'.trans hprogress, hwriter' ▸ hwrote⟩

/-- The header of a picture is compiled. -/
theorem succeeds_blocks_header (h : picture.Legal) {settings : List Header.Setting}
    (hperm : settings.Perm picture.settings)
    (hstate : Awaits {} (Keyword.header.name :: "\x7b" ::
      (settings.flatMap Header.Setting.texts ++ "\x7d" :: texts)) rest {} sink compilation)
    (hrest : ∀ state, Awaits { picture.image with palette := [], given := {} } texts rest
      (Progress.add .header {}) sink state → Succeeds post (blocks state)) :
    Succeeds post (blocks compilation) := by
  obtain ⟨hbefore, hprogress, hwriter⟩ := hstate
  refine succeeds_round _ hbefore (hprogress ▸ rfl) ?_ hrest
  intro state hstate hsame hsame'
  have hfold := Picture.foldl_settings hperm
  have hheight := h.header.height_pos
  have hwidth := h.header.width_pos
  have hheader := succeeds_header (Picture.inRange_settings h hperm)
    (by rw [hfold]; simp [Picture.image]; omega) (by rw [hfold]; simp [Picture.image]; omega) hstate
  rw [hfold] at hheader
  refine (succeeds_read hheader).mono_post ?_
  rintro _ after ⟨hafter, hprogress', hwriter'⟩
  exact ⟨hafter, by rw [hprogress', hsame, hprogress], hwriter'.trans (hsame'.trans hwriter)⟩

/-- The palette of a picture is compiled. -/
theorem succeeds_blocks_palette (h : picture.Legal) (htype : picture.header.type = .indexed)
    (hstate : Awaits { picture.image with palette := [], given := {} } (Keyword.palette.name ::
      "\x7b" :: (picture.palette.flatMap Palette.texts ++ "\x7d" :: texts)) rest
      (Progress.add .header {}) sink compilation)
    (hrest : ∀ state, Awaits picture.image texts rest
      (Progress.add .palette (Progress.add .header {})) sink state → Succeeds post (blocks state)) :
    Succeeds post (blocks compilation) := by
  obtain ⟨hbefore, hprogress, hwriter⟩ := hstate
  have hlimit : picture.palette.length ≤ Palette.limit := by
    have hdepths : ∀ depth : Nat, (depth : Int) ∈ ColorType.indexed.bitDepths →
        1 <<< depth ≤ Palette.limit := by
      intro depth hmem
      simp only [ColorType.bitDepths, List.mem_cons, List.not_mem_nil, or_false] at hmem
      have hcases : depth = 1 ∨ depth = 2 ∨ depth = 4 ∨ depth = 8 := by omega
      rcases hcases with rfl | rfl | rfl | rfl <;> decide
    have hpalette := h.palette
    rw [if_pos htype] at hpalette
    exact Nat.le_trans hpalette.2 (hdepths _ (htype ▸ h.header.bitDepth_mem))
  have hcheck : (Progress.add .header {}).check picture.image.color .palette = .ok () := by
    rw [Picture.image, htype]
    rfl
  have himage : picture.image = { picture.image with
      palette := picture.palette.map Palette.entry, given := { palette := true } } := by
    simp [Picture.image, htype]
  refine succeeds_round _ hbefore (hprogress ▸ hcheck) ?_ hrest
  intro state hstate hsame hsame'
  have hpalette := succeeds_palette rfl hlimit hstate
  refine (succeeds_read hpalette).mono_post ?_
  rintro _ after ⟨hafter, hprogress', hwriter'⟩
  refine ⟨?_, by rw [hprogress', hsame, hprogress], hwriter'.trans (hsame'.trans hwriter)⟩
  rw [himage]
  exact hafter

/-- All blocks of a source of a picture are compiled, and the source may end then. -/
theorem succeeds_blocks (h : picture.Legal) (hreasons : sink.reasons = [])
    (hraw : imageData picture.image picture.data = .ok raw) {chars : List Char}
    (hsource : picture.IsSource chars) :
    Succeeds (fun _ after => ∃ progress, progress.checkEnd picture.image.color = .ok () ∧
        Finished picture progress sink raw after)
      (blocks (.ofSource (.ofChars chars) sink)) := by
  obtain ⟨settings, segment, blanks, hperm, hsegment, hblanks, hspells⟩ := hsource
  have hstart : Before {} (picture.texts settings) (segment ++ '\x7d' :: blanks)
      (ofSource (.ofChars chars) sink).toBody := ⟨rfl, chars, hspells, rfl, rfl, rfl⟩
  have hpixels {progress : Progress} {state : Compilation}
      (hcheck : progress.check picture.image.color .pixels = .ok ())
      (hpixels : progress.hasPixels = false)
      (hend : (progress.add .pixels).checkEnd picture.image.color = .ok ())
      (hstate : Awaits picture.image [Keyword.pixels.name, "\x7b"] (segment ++ '\x7d' :: blanks)
        progress sink state) :
      Succeeds (fun _ after => ∃ progress, progress.checkEnd picture.image.color = .ok () ∧
        Finished picture progress sink raw after) (blocks state) :=
    (succeeds_blocks_pixels h hreasons hraw hsegment hblanks hcheck hpixels hstate).mono_post
      fun _ _ hafter => ⟨_, hend, hafter⟩
  by_cases htype : picture.header.type = .indexed
  · rw [Picture.texts_of_indexed htype] at hstart
    refine succeeds_blocks_header h hperm ⟨hstart, rfl, rfl⟩ ?_
    intro state hstate
    refine succeeds_blocks_palette h htype hstate fun state hstate => hpixels ?_ ?_ ?_ hstate
    · rfl
    · rfl
    · rw [Progress.checkEnd, Picture.palette_image, htype]
      rfl
  · rw [Picture.texts_of_not_indexed htype] at hstart
    refine succeeds_blocks_header h hperm ⟨hstart, rfl, rfl⟩ ?_
    intro state hstate
    rw [Picture.image_of_not_indexed h htype] at hstate
    refine hpixels ?_ ?_ ?_ hstate
    · rfl
    · rfl
    · rw [Progress.checkEnd, Picture.palette_image, decide_eq_false htype]
      rfl

attribute [local irreducible] Writer.writeChunk in
/-- The last chunk of a picture is written. -/
theorem succeeds_finish (hreasons : sink.reasons = []) {progress : Progress}
    (hend : progress.checkEnd picture.image.color = .ok ())
    (hstate : Finished picture progress sink raw compilation) :
    Succeeds (fun _ after => Writer.Wrote sink (picture.chunks raw) after.writer)
      (finish compilation) := by
  obtain ⟨himage, rfl, hwrote⟩ := hstate
  rw [finish_eq]
  refine outcome_verify (fun cause hfault => ?_) fun _ => ?_
  · rw [himage, hend] at hfault
    cases hfault
  · have hlast := Picture.succeeds_writeEnd hwrote hreasons
    exact (succeeds_write hlast).mono_post fun _ after hafter => hafter.1

/-- A source of a picture compiles, and all chunks of the picture are written. -/
theorem succeeds_run (h : picture.Legal) (hreasons : sink.reasons = [])
    (hraw : imageData picture.image picture.data = .ok raw) {chars : List Char}
    (hsource : picture.IsSource chars) :
    Succeeds (fun _ after => Writer.Wrote sink (picture.chunks raw) after.writer)
      (run (.ofSource (.ofChars chars) sink)) := by
  refine outcome_run_of_finish (succeeds_blocks h hreasons hraw hsource) ?_ fun _ _ _ h => h
  rintro after ⟨progress, hend, hstate⟩
  exact succeeds_finish hreasons hend hstate

end Compilation

/-- Every legal picture, of whatever size, color type, bit depth and order of rows, has a source;
and however such a source orders the settings and spreads its blanks, it compiles without an error,
and decoding what has been written gives the picture back. -/
theorem compile_picture {picture : Picture} (h : picture.Legal) :
    (∃ chars, picture.IsSource chars) ∧
      ∀ chars, picture.IsSource chars →
        (compile (.ofChars chars) {}).1 = .ok () ∧
          decode? (compile (.ofChars chars) {}).2.writer.sink.octets = some picture := by
  refine ⟨Picture.exists_isSource h, fun chars hsource => ?_⟩
  have hof := (Picture.describes_image h).of
  obtain ⟨raw, hraw, hread⟩ := Picture.exists_imageData h hof
  have hreasons : ({} : Sink).reasons = [] := rfl
  have hrun := Compilation.succeeds_run h hreasons hraw hsource
  unfold compile
  cases hresult : Compilation.run (.ofSource (.ofChars chars) {}) with
  | error failure after =>
    rw [hresult] at hrun
    exact hrun.elim
  | ok _ after =>
    rw [hresult] at hrun
    refine ⟨rfl, Picture.decode?_eq h hread ?_⟩
    rw [Sink.octets, hrun.written]
    simp [List.flatMap]

/-- A picture that four of the seven passes take, with indexes of two bits. -/
def smallPicture : Picture where
  header := ⟨2, 3, 2, .indexed, .adam7⟩
  palette := [(0, 0, 0), (255, 128, 0), (12, 34, 56)]
  rows := [[[0], [1]], [[2], [2]], [[1], [0]]]

theorem compile_smallPicture : smallPicture.Legal ∧ (∃ chars, smallPicture.IsSource chars) ∧
    ∀ chars, smallPicture.IsSource chars →
      (compile (.ofChars chars) {}).1 = .ok () ∧
        decode? (compile (.ofChars chars) {}).2.writer.sink.octets = some smallPicture :=
  ⟨by decide, compile_picture (by decide)⟩

end ScriptedPng
