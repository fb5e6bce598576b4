import ScriptedPng.Proofs.Block.Alike
import ScriptedPng.Proofs.Lexer.Grammar
import ScriptedPng.Proofs.Step

/-!
# Layout does not matter

Two sources that render the same pieces are compiled to the same octets and the same image, or fail
with the same cause; only the lines of the diagnostics differ. Blanks, comments and the blanks of
data segments are all that a layout can change.

## Main definitions

* `Progress.Alike` — the guards cannot tell the blocks compiled so far apart.
* `Compilation.Met`, `Compilation.Agrees` — two compilations at the same place, and actions that go
  on alike.
* `Failure.withoutLine` — what a failure is apart from its line.

## Main statements

* `Compilation.agrees_block` — a block goes on alike.
* `compile_relayout` — the layout of a source does not matter.
-/

namespace ScriptedPng

open Block Diagnostic Png

/-- The failure apart from its line. -/
def Failure.withoutLine : Failure → Failure
  | .diagnostic found => .diagnostic ⟨found.cause, none⟩
  | failure => failure

theorem Failure.withoutLine_withLine (failure : Failure) (line : Line) :
    (failure.withLine line).withoutLine = failure.withoutLine := by
  cases failure <;> rfl

namespace Block.Progress

/-- The guards of blocks cannot tell the blocks compiled so far apart: there are as many of each
kind, and the last one is a block of data in both cases, or in none. -/
structure Alike (progress progress' : Progress) : Prop where
  count_eq : ∀ keyword, progress.count keyword = progress'.count keyword
  isSome_eq : progress.previous.isSome = progress'.previous.isSome
  data_iff : progress.previous = some .data ↔ progress'.previous = some .data

namespace Alike

variable {progress progress' : Progress}

theorem refl (progress : Progress) : Alike progress progress :=
  ⟨fun _ => rfl, rfl, Iff.rfl⟩

theorem has_eq (h : Alike progress progress') (keyword : Keyword) :
    progress.has keyword = progress'.has keyword := by
  simp [has, h.count_eq]

theorem hasPixels_eq (h : Alike progress progress') : progress.hasPixels = progress'.hasPixels := by
  simp [hasPixels, pixelBlocks, h.count_eq]

theorem check_eq (h : Alike progress progress') (color : ColorFlags) (keyword : Keyword) :
    progress.check color keyword = progress'.check color keyword := by
  have hfaults : progress.faults color keyword = progress'.faults color keyword := by
    cases keyword <;> simp [faults, h.has_eq, h.hasPixels_eq, h.isSome_eq, h.data_iff]
  simp [check, hfaults, h.has_eq]

theorem checkEnd_eq (h : Alike progress progress') (color : ColorFlags) :
    progress.checkEnd color = progress'.checkEnd color := by
  simp [checkEnd, h.has_eq, h.hasPixels_eq]

theorem add (h : Alike progress progress') (keyword : Keyword) :
    Alike (progress.add keyword) (progress'.add keyword) where
  count_eq other := by rw [count_add, count_add, h.count_eq]
  isSome_eq := rfl
  data_iff := Iff.rfl

end Alike

end Block.Progress

namespace Compilation

variable {rel : List Piece → List Piece → Prop} {R : Image → Image → Prop}
  {progress progress' : Progress} {place place' : Place} {α β : Type}

/-- Two compilations have counted the given blocks and written the same. They stand at the same
place of the same block, and their images are related. -/
structure Met (rel : List Piece → List Piece → Prop) (R : Image → Image → Prop)
    (progress progress' : Progress) (place : Place) (compilation compilation' : Compilation) :
    Prop where
  body : Block.Met rel R place compilation.toBody compilation'.toBody
  progress_eq : compilation.progress = progress
  progress_eq' : compilation'.progress = progress'
  writer_eq : compilation'.writer = compilation.writer

/-- Both failures are the same, apart from their lines; the images are related, and the same has
been written. -/
def SameFailure (R : Image → Image → Prop) (failure : Failure) (compilation : Compilation)
    (failure' : Failure) (compilation' : Compilation) : Prop :=
  failure'.withoutLine = failure.withoutLine ∧ R compilation.image compilation'.image ∧
    compilation'.writer = compilation.writer

/-- From one place to another, two actions go on alike. -/
abbrev Agrees (rel : List Piece → List Piece → Prop) (R : Image → Image → Prop)
    (progress progress' : Progress) (place place' : Place) (related : α → α → Prop)
    (action action' : CompileM α) : Prop :=
  Agree (Met rel R progress progress' place) (Met rel R progress progress' place') (SameFailure R)
    related action action'

/-! ## Blocks -/

theorem agrees_read {related : α → α → Prop} {action action' : BodyM α}
    (h : Block.Agrees rel R place place' related action action') :
    Agrees rel R progress progress' place place' related (read action) (read action') := by
  rintro compilation compilation' ⟨hbody, hprogress, hprogress', hwriter⟩
  have haction := h _ _ hbody
  simp only [read]
  cases hresult : action compilation.toBody <;> cases hresult' : action' compilation'.toBody <;>
    rw [hresult, hresult'] at haction
  case ok.ok => exact ⟨haction.1, haction.2, hprogress, hprogress', hwriter⟩
  case ok.error => exact haction
  case error.ok => exact haction
  case error.error =>
    obtain ⟨hcause, himage⟩ := haction.resolve_right id
    exact .inl ⟨by simp [Failure.withoutLine, hcause], himage, hwriter⟩

theorem agrees_write (action : WriterM α) :
    Agrees rel R progress progress' place place Eq (write action) (write action) := by
  rintro compilation compilation' ⟨hbody, hprogress, hprogress', hwriter⟩
  simp only [write, hwriter]
  cases action compilation.writer with
  | ok value writer => exact ⟨rfl, hbody, hprogress, hprogress', rfl⟩
  | error failure writer => exact .inl ⟨rfl, hbody.image, rfl⟩

theorem agrees_verify {result result' : Except Cause Unit} (h : result = result') :
    Agrees rel R progress progress' place place Eq (verify result) (verify result') := by
  subst h
  cases result with
  | ok _ => exact .pure rfl
  | error cause => exact .throw fun _ _ hmet => ⟨rfl, hmet.body.image, hmet.writer_eq⟩

theorem agrees_throw (failure : Failure) {related : α → α → Prop} :
    Agrees rel R progress progress' place place' related (throw failure) (throw failure) :=
  .throw fun _ _ hmet => ⟨rfl, hmet.body.image, hmet.writer_eq⟩

/-- What comes after the state has been looked at may depend on the progress and the image. -/
theorem agrees_get_bind {after : Compilation → Compilation → Prop} {related : β → β → Prop}
    {next : Compilation → CompileM β}
    (h : ∀ compilation compilation', Met rel R progress progress' place compilation compilation' →
      Agree (Met rel R progress progress' place) after (SameFailure R) related (next compilation)
        (next compilation')) :
    Agree (Met rel R progress progress' place) after (SameFailure R) related (do next (← get))
      (do next (← get)) :=
  fun compilation compilation' hmet => h compilation compilation' hmet compilation compilation' hmet

theorem agrees_startPixels (h : progress.hasPixels = progress'.hasPixels) :
    Agrees rel Eq progress progress' place place Eq startPixels startPixels := by
  refine agrees_get_bind ?_
  rintro compilation compilation' ⟨hbody, rfl, rfl, -⟩
  have himage : compilation.image = compilation'.image := hbody.image
  rw [himage]
  exact .ite (by rw [h]) (fun _ => .pure rfl) fun _ => agrees_write _

theorem agrees_data (h : progress.hasPixels = progress'.hasPixels) :
    Agrees rel Eq progress progress' .segment .outside Eq data data :=
  .bind_eq (agrees_startPixels h) fun _ => .bind_eq (agrees_read (agrees_collect _)) fun _ =>
    agrees_write _

theorem agrees_pixels (h : progress.hasPixels = progress'.hasPixels) :
    Agrees rel Eq progress progress' .segment .outside Eq pixels pixels := by
  refine agrees_get_bind ?_
  intro compilation compilation' hmet
  have himage : compilation.image = compilation'.image := hmet.body.image
  rw [himage]
  exact .bind_eq (agrees_startPixels h) fun _ => .bind_eq (agrees_read (agrees_collect _)) fun _ =>
    .ite Iff.rfl (fun _ => agrees_write _) fun _ => agrees_throw _

/-- Where the body of a block starts. -/
def start (keyword : Keyword) : Place :=
  if keyword = .data ∨ keyword = .pixels then .segment else .inside

theorem agrees_body (h : progress.hasPixels = progress'.hasPixels) (keyword : Keyword) :
    Agrees rel Eq progress progress' (start keyword) .outside Eq (body keyword) (body keyword) := by
  cases keyword with
  | header => exact agrees_read agrees_header
  | palette => exact agrees_read agrees_palette
  | chromaticities =>
    exact agrees_read (agrees_chromaticities (fun _ _ => respects_eq _) (respects_eq _))
  | gamma => exact agrees_read (agrees_gamma (fun _ => respects_eq _) (respects_eq _))
  | intent => exact agrees_read agrees_intent
  | data => exact agrees_data h
  | pixels => exact agrees_pixels h
  | _ => exact agrees_throw _

theorem agrees_openBody (data : Bool) :
    Block.Agrees rel R (.opening data) (if data then .segment else .inside) Eq openBody
      openBody := by
  refine agrees_next (by simp) (by simp) (.throw fun _ _ h => ⟨rfl, h⟩) ?_
  intro token token' hsame
  have hiff := is_iff hsame "\x7b"
  by_cases hopen : token.Is "\x7b"
  · have hplace : (Place.opening data).after token.text token.quoted =
        if data then .segment else .inside := if_pos hopen
    simp only [if_pos hopen, if_pos (hiff.1 hopen), hplace]
    exact .pure rfl
  · simp only [if_neg hopen, if_neg (mt hiff.2 hopen)]
    exact agrees_failAt rfl

theorem keyword?_eq {token token' : Token} (h : token.content = token'.content) :
    keyword? token = keyword? token' := by
  obtain ⟨htext, hquoted⟩ := Prod.mk.inj h
  simp [keyword?, htext, hquoted]

/-- The keyword tells where the body starts. -/
theorem start_eq {token : Token} {keyword : Keyword} (h : keyword? token = some keyword) :
    start keyword =
      if decide (Place.IsData token.text token.quoted) then .segment else .inside := by
  simp only [keyword?] at h
  split at h
  · cases h
  · rename_i hquoted
    have hname := Keyword.name_of_ofName? h
    have hiff : keyword = .data ∨ keyword = .pixels ↔
        Place.IsData token.text token.quoted := by
      rw [Place.IsData, ← hname]
      cases keyword <;> simp [hquoted] <;> decide
    simp [start, hiff]

/-- A block is compiled alike if its guards decide alike and its body goes on alike. -/
theorem agrees_block {token token' : Token} (hsame : token.content = token'.content)
    (hcheck : ∀ keyword, keyword? token = some keyword → ∀ image image', R image image' →
      progress.check image.color keyword = progress'.check image'.color keyword)
    (hbody : ∀ keyword, keyword? token = some keyword →
      Agrees rel R progress progress' (start keyword) .outside Eq (body keyword) (body keyword)) :
    Agree (Met rel R progress progress' (.opening (Place.IsData token.text token.quoted)))
      (fun compilation compilation' => ∃ keyword, keyword? token = some keyword ∧
        Met rel R (progress.add keyword) (progress'.add keyword) .outside compilation compilation')
      (SameFailure R) Eq (block token) (block token') := by
  have hkeyword := keyword?_eq hsame
  cases hfound : keyword? token with
  | none =>
    simp only [block, ← hkeyword, hfound]
    have hcause := congrArg Cause.unknownBlock (Prod.mk.inj hsame).1
    intro compilation compilation' hmet
    exact .inl ⟨by simp [Failure.withoutLine, hcause], hmet.body.image, hmet.writer_eq⟩
  | some keyword =>
    simp only [block, ← hkeyword, hfound]
    have hopen : Agrees rel R progress progress'
        (.opening (Place.IsData token.text token.quoted)) (start keyword) Eq (read openBody)
        (read openBody) := by
      rw [start_eq hfound]
      exact agrees_read (agrees_openBody _)
    refine .bind_eq hopen fun _ => agrees_get_bind fun compilation compilation' hmet => ?_
    have hguard : compilation.progress.check compilation.image.color keyword =
        compilation'.progress.check compilation'.image.color keyword := by
      rw [hmet.progress_eq, hmet.progress_eq']
      exact hcheck keyword hfound _ _ hmet.body.image
    refine .bind_eq (agrees_verify hguard) fun _ => .bind_eq (hbody keyword hfound) fun _ => ?_
    rintro last last' ⟨hlast, rfl, rfl, hwriter⟩
    exact ⟨rfl, keyword, rfl, hlast, rfl, rfl, hwriter⟩

/-! ## Runs -/

/-- Between blocks, two compilations have counted blocks that the guards cannot tell apart. -/
def Between (rel : List Piece → List Piece → Prop) (compilation compilation' : Compilation) :
    Prop :=
  compilation.progress.Alike compilation'.progress ∧
    Met rel Eq compilation.progress compilation'.progress .outside compilation compilation'

/-- At the delimiter that opens a block, two compilations have counted blocks that the guards cannot
tell apart. -/
def AtBlock (rel : List Piece → List Piece → Prop) (token : Token)
    (compilation compilation' : Compilation) : Prop :=
  compilation.progress.Alike compilation'.progress ∧
    Met rel Eq compilation.progress compilation'.progress
      (.opening (Place.IsData token.text token.quoted)) compilation compilation'

/-- Both sources give the same keyword next. -/
theorem alike_next_token {compilation compilation' : Compilation} {text : String} {quoted : Bool}
    {pieces pieces' : List Piece} (halike : compilation.progress.Alike compilation'.progress)
    (hmet : Met (ThesePieces (.token text quoted :: pieces) (.token text quoted :: pieces')) Eq
      compilation.progress compilation'.progress .outside compilation compilation')
    (hwithin : Within rel (.opening (Place.IsData text quoted)) pieces pieces') :
    Alike (fun found after found' after' => ∃ token token', found = some token ∧
        found' = some token' ∧ token.content = token'.content ∧ AtBlock rel token after after')
      (SameFailure Eq) (next compilation) (next compilation') := by
  obtain ⟨⟨⟨_, _, hfound, hshows, hshows'⟩, hfault, hfault', himage⟩, -, -, hwriter⟩ := hmet
  obtain ⟨rfl, rfl⟩ := hfound.related
  have hnext := succeeds_read (Block.succeeds_read (Lexer.succeeds_next_token hshows hfault))
  have hnext' := succeeds_read (Block.succeeds_read (Lexer.succeeds_next_token hshows' hfault'))
  refine (Alike.of_succeeds hnext hnext').mono_post ?_
  rintro _ after _ after' ⟨⟨⟨heq, ⟨line, rfl⟩, hrest, hnone⟩, hprogress, hsame⟩,
    ⟨heq', ⟨line', rfl⟩, hrest', hnone'⟩, hprogress', hsame'⟩
  refine ⟨_, _, rfl, rfl, rfl, by rwa [hprogress, hprogress'],
    ⟨⟨_, _, hwithin, hrest, hrest'⟩, hnone, hnone', ?_⟩, rfl, rfl, ?_⟩
  · exact (heq.trans himage).trans heq'.symm
  · exact (hsame'.trans hwriter).trans hsame.symm

/-- The keyword of the next block is the same in both sources, unless both are at the end. -/
theorem alike_next {compilation compilation' : Compilation}
    (h : Between SamePieces compilation compilation') :
    Alike (fun found after found' after' =>
        found = none ∧ found' = none ∧ Between SamePieces after after' ∨
        ∃ token token', found = some token ∧ found' = some token' ∧
          token.content = token'.content ∧ AtBlock SamePieces token after after')
      (SameFailure Eq) (next compilation) (next compilation') := by
  obtain ⟨halike, ⟨⟨pieces, pieces', hwithin, hshows, hshows'⟩, hfault, hfault', himage⟩, -, -,
    hwriter⟩ := h
  obtain ⟨rfl, hfits⟩ := hwithin.related
  cases hfits with
  | done =>
    have hnext := succeeds_read (Block.succeeds_read (Lexer.succeeds_next_done hshows hfault))
    have hnext' := succeeds_read (Block.succeeds_read (Lexer.succeeds_next_done hshows' hfault'))
    refine (Alike.of_succeeds hnext hnext').mono_post ?_
    rintro _ after _ after' ⟨⟨⟨heq, rfl, hend, hnone⟩, hprogress, hsame⟩,
      ⟨heq', rfl, hend', hnone'⟩, hprogress', hsame'⟩
    refine .inl ⟨rfl, rfl, by rwa [hprogress, hprogress'],
      ⟨⟨[], [], .past ⟨rfl, .done (by simp)⟩, hend, hend'⟩, hnone, hnone', ?_⟩, rfl, rfl, ?_⟩
    · exact (heq.trans himage).trans heq'.symm
    · exact (hsame'.trans hwriter).trans hsame.symm
  | token hplace hfits =>
    have hmet := alike_next_token halike ⟨⟨⟨_, _, .past ⟨rfl, rfl⟩, hshows, hshows'⟩, hfault,
      hfault', himage⟩, rfl, rfl, hwriter⟩ hfits.within
    exact hmet.mono_post fun _ _ _ _ hfound => .inr hfound

/-- From the delimiter that opens it, the same block is compiled alike. -/
theorem alike_block {token token' : Token} {compilation compilation' : Compilation}
    (hsame : token.content = token'.content) (h : AtBlock rel token compilation compilation') :
    Alike (fun _ after _ after' => Between rel after after') (SameFailure Eq)
      (block token compilation) (block token' compilation') := by
  obtain ⟨halike, hmet⟩ := h
  have hguard (keyword : Keyword) (image image' : Image) (h : image = image') :
      compilation.progress.check image.color keyword =
        compilation'.progress.check image'.color keyword := by
    rw [h, halike.check_eq]
  refine (agrees_block hsame (fun keyword _ => hguard keyword)
    (fun keyword _ => agrees_body halike.hasPixels_eq keyword) _ _ hmet).mono_post ?_
  rintro _ after _ after' ⟨-, keyword, -, hafter⟩
  refine ⟨?_, ?_⟩
  · rw [hafter.progress_eq, hafter.progress_eq']
    exact halike.add keyword
  · rwa [hafter.progress_eq, hafter.progress_eq']

/-- All blocks are compiled alike. -/
theorem agrees_blocks :
    Agree (Between SamePieces) (Between SamePieces) (SameFailure Eq) Eq blocks blocks := by
  intro compilation compilation' hbetween
  refine Lockstep.foldEach
    (fun _ compilation _ compilation' => Between SamePieces compilation compilation')
    (fun _ token compilation _ token' compilation' => token.content = token'.content ∧
      AtBlock SamePieces token compilation compilation')
    hbetween ?_ ?_ (fun _ _ _ h => h.elim) fun _ _ _ _ _ h => h.elim
  · rintro _ compilation _ compilation' hround
    refine (alike_next hround).mono_post ?_
    rintro found after found' after' (⟨rfl, rfl, hafter⟩ | ⟨token, token', rfl, rfl, hfound⟩)
    · exact .inl ⟨rfl, rfl, rfl, hafter⟩
    · exact .inr ⟨token, token', rfl, rfl, hfound⟩
  · rintro _ token compilation _ token' compilation' ⟨hsame, hmet⟩
    exact alike_block hsame hmet

theorem agrees_finish : Agree (Between rel) (Between rel) (SameFailure Eq) Eq finish finish := by
  rintro compilation compilation' ⟨halike, hmet⟩
  have himage : compilation.image = compilation'.image := hmet.body.image
  have hguard : compilation.progress.checkEnd compilation.image.color =
      compilation'.progress.checkEnd compilation'.image.color := by
    rw [himage, halike.checkEnd_eq]
  have hlast : Agrees rel Eq compilation.progress compilation'.progress .outside .outside Eq
      (do verify (compilation.progress.checkEnd compilation.image.color)
          write Writer.writeEnd)
      (do verify (compilation'.progress.checkEnd compilation'.image.color)
          write Writer.writeEnd) :=
    .bind_eq (agrees_verify hguard) fun _ => agrees_write _
  rw [finish_eq, finish_eq]
  refine (hlast _ _ hmet).mono_post ?_
  rintro _ after _ after' ⟨heq, hafter⟩
  refine ⟨heq, ?_, ?_⟩
  · rw [hafter.progress_eq, hafter.progress_eq']
    exact halike
  · rwa [hafter.progress_eq, hafter.progress_eq']

/-- The lines of failures are of no account. -/
theorem SameFailure.withLine {failure failure' : Failure} {compilation compilation' : Compilation}
    (h : SameFailure R failure compilation failure' compilation') (line line' : Line) :
    SameFailure R (failure.withLine line) compilation (failure'.withLine line') compilation' :=
  ⟨by simpa only [Failure.withoutLine_withLine] using h.1, h.2⟩

theorem agrees_conclude :
    Agree (Between rel) (Between rel) (SameFailure Eq) Eq conclude conclude := by
  intro compilation compilation' hbetween
  have hfinish := agrees_finish compilation compilation' hbetween
  simp only [conclude]
  cases hresult : finish compilation <;> cases hresult' : finish compilation' <;>
    rw [hresult, hresult'] at hfinish
  case ok.ok => exact ⟨trivial, hfinish.2⟩
  case ok.error => exact False.elim hfinish
  case error.ok => exact False.elim hfinish
  case error.error => exact .inl ((hfinish.resolve_right id).withLine _ _)

/-- Runs go on alike if all blocks are compiled alike. The lines of failures are of no account. -/
theorem alike_run {compilation compilation' : Compilation}
    {fault : Failure → Compilation → Failure → Compilation → Prop}
    (hline : ∀ failure after failure' after' line line', fault failure after failure' after' →
      fault (failure.withLine line) after (failure'.withLine line') after')
    (hsame : ∀ failure after failure' after', SameFailure Eq failure after failure' after' →
      fault failure after failure' after')
    (h : Alike (fun _ after _ after' => Between rel after after') fault (blocks compilation)
      (blocks compilation')) :
    Alike (fun _ after _ after' => Between rel after after') fault (run compilation)
      (run compilation') := by
  rw [run_eq, run_eq]
  cases hresult : blocks compilation <;> cases hresult' : blocks compilation' <;>
    rw [hresult, hresult'] at h
  case ok.ok => exact (agrees_conclude _ _ h).mono (fun _ _ _ _ h => h.2) hsame
  case ok.error => exact False.elim h
  case error.ok => exact False.elim h
  case error.error => exact .inl (hline _ _ _ _ _ _ (h.resolve_right id))

theorem agrees_run :
    Agree (Between SamePieces) (Between SamePieces) (SameFailure Eq) Eq run run := by
  intro compilation compilation' hbetween
  have hblocks := agrees_blocks compilation compilation' hbetween
  have hrun : Alike _ (SameFailure Eq) (run compilation) (run compilation') :=
    alike_run (fun _ _ _ _ line line' h => h.withLine line line') (fun _ _ _ _ h => h)
      (hblocks.mono_post fun _ _ _ _ h => h.2)
  exact hrun.mono_post fun _ _ _ _ h => ⟨rfl, h⟩

theorem between_ofSource {pieces pieces' : List Piece} {chars chars' : List Char}
    (hrel : rel pieces pieces') (h : Renders pieces chars) (h' : Renders pieces' chars')
    (sink : Sink) :
    Between rel (ofSource (.ofChars chars) sink) (ofSource (.ofChars chars') sink) := by
  refine ⟨.refl _, ⟨⟨pieces, pieces', .past hrel, ?_, ?_⟩, rfl, rfl, rfl⟩, rfl, rfl, rfl⟩
  · exact ⟨chars, Lexer.resumes_of_ahead rfl rfl, h⟩
  · exact ⟨chars', Lexer.resumes_of_ahead rfl rfl, h'⟩

end Compilation

/-- The layout of a source does not matter: the same is written, the image is the same, and either
both runs succeed or both fail with the same cause, though perhaps on different lines. -/
theorem compile_relayout {pieces : List Piece} {chars chars' : List Char}
    (hfits : Fits .outside pieces) (h : Renders pieces chars) (h' : Renders pieces chars')
    (sink : Sink) :
    (compile (.ofChars chars) sink).2.writer.sink.written =
        (compile (.ofChars chars') sink).2.writer.sink.written ∧
      (compile (.ofChars chars) sink).2.image = (compile (.ofChars chars') sink).2.image ∧
      (compile (.ofChars chars) sink).1.mapError Failure.withoutLine =
        (compile (.ofChars chars') sink).1.mapError Failure.withoutLine := by
  have hrun := Compilation.agrees_run _ _
    (Compilation.between_ofSource ⟨rfl, hfits⟩ h h' sink)
  rw [Compilation.compile_eq, Compilation.compile_eq]
  generalize Compilation.run (.ofSource (.ofChars chars) sink) = result at hrun ⊢
  generalize Compilation.run (.ofSource (.ofChars chars') sink) = result' at hrun ⊢
  cases result <;> cases result'
  case ok.ok => exact ⟨by rw [ended, ended, hrun.2.2.writer_eq], hrun.2.2.body.image, rfl⟩
  case ok.error => exact False.elim hrun
  case error.ok => exact False.elim hrun
  case error.error =>
    obtain ⟨hsame, himage, hwriter⟩ := hrun.resolve_right id
    exact ⟨by rw [ended, ended, hwriter], himage, by simp [ended, Except.mapError, hsame]⟩

/-! ## A source in two layouts -/

/-- Lexemes in front of other pieces render their tokens. -/
theorem renders_joined {items : List (List Char × Lexeme)} {pieces : List Piece}
    {rest : List Char} (hfits : Layout.Fits items rest) (h : Renders pieces rest) :
    Renders (items.map (fun item => .token item.2.text item.2.quoted) ++ pieces)
      (Layout.joined items rest) := by
  induction items with
  | nil => exact h
  | cons item items ih =>
    obtain ⟨⟨hgap, hlegal, hends⟩, hitems⟩ := hfits
    exact .token hgap hlegal hends (ih hitems)

/-- The pieces of an image of one black pixel. -/
def dotPieces : List Piece :=
  [.token "IHDR" false, .token "\x7b" false, .token "width" false, .token "1" false,
    .token "height" false, .token "1" false, .token "\x7d" false, .token "IMAGE" false,
    .token "\x7b" false, .segment ['0', '0']]

theorem fits_dotPieces : Fits .outside dotPieces :=
  .token (by decide) <| .token (by decide) <| .token (by decide) <| .token (by decide) <|
    .token (by decide) <| .token (by decide) <| .token (by decide) <| .token (by decide) <|
    .token (by decide) <| .segment <| .done (by decide)

/-- The lexemes of the image, in front of its data. -/
def dotLexemes : List Lexeme :=
  [.word 'I' ['H', 'D', 'R'], .mark '\x7b', .word 'w' ['i', 'd', 't', 'h'], .word '1' [],
    .word 'h' ['e', 'i', 'g', 'h', 't'], .word '1' [], .mark '\x7d',
    .word 'I' ['M', 'A', 'G', 'E'], .mark '\x7b']

/-- The image with as few blanks as possible. -/
def tightDot : List Char :=
  "IHDR\x7bwidth 1 height 1\x7dIMAGE\x7b00\x7d".toList

/-- The image with more blanks and a comment. -/
def wideDot : List Char :=
  " IHDR \x7b\nwidth 1#wide\nheight 1 \x7d\tIMAGE \x7b0 0\n\x7d".toList

theorem renders_zeros {raw : List Char} (h : visible raw = ['0', '0']) (hclose : '\x7d' ∉ raw) :
    Renders [.segment ['0', '0']] (raw ++ ['\x7d']) :=
  h ▸ .segment hclose (.done (.closed .nil))

theorem renders_tightDot : Renders dotPieces tightDot := by
  have hfits : Layout.Fits ([[], [], [], [' '], [' '], [' '], [], [], []].zip dotLexemes)
      (['0', '0'] ++ ['\x7d']) :=
    ⟨⟨.nil, by decide, by decide⟩, ⟨.nil, by decide, by decide⟩, ⟨.nil, by decide, by decide⟩,
      ⟨.blank rfl .nil, by decide, by decide⟩, ⟨.blank rfl .nil, by decide, by decide⟩,
      ⟨.blank rfl .nil, by decide, by decide⟩, ⟨.nil, by decide, by decide⟩,
      ⟨.nil, by decide, by decide⟩, ⟨.nil, by decide, by decide⟩, trivial⟩
  exact renders_joined hfits (renders_zeros (by decide) (by decide))

theorem renders_wideDot : Renders dotPieces wideDot := by
  have hfits : Layout.Fits
      ([[' '], [' '], ['\n'], [' '], '#' :: (['w', 'i', 'd', 'e'] ++ ['\n']), [' '], [' '], ['\t'],
        [' ']].zip dotLexemes) (['0', ' ', '0', '\n'] ++ ['\x7d']) :=
    ⟨⟨.blank rfl .nil, by decide, by decide⟩, ⟨.blank rfl .nil, by decide, by decide⟩,
      ⟨.blank rfl .nil, by decide, by decide⟩, ⟨.blank rfl .nil, by decide, by decide⟩,
      ⟨.comment (by decide) .nil, by decide, by decide⟩, ⟨.blank rfl .nil, by decide, by decide⟩,
      ⟨.blank rfl .nil, by decide, by decide⟩, ⟨.blank rfl .nil, by decide, by decide⟩,
      ⟨.blank rfl .nil, by decide, by decide⟩, trivial⟩
  exact renders_joined hfits (renders_zeros (by decide) (by decide))

/-- The layout of the image does not matter. -/
theorem compile_relayout_dot :
    Fits .outside dotPieces ∧ Renders dotPieces tightDot ∧ Renders dotPieces wideDot ∧
      (compile (.ofChars tightDot) {}).2.writer.sink.written =
        (compile (.ofChars wideDot) {}).2.writer.sink.written ∧
      (compile (.ofChars tightDot) {}).2.image = (compile (.ofChars wideDot) {}).2.image ∧
      (compile (.ofChars tightDot) {}).1.mapError Failure.withoutLine =
        (compile (.ofChars wideDot) {}).1.mapError Failure.withoutLine :=
  ⟨fits_dotPieces, renders_tightDot, renders_wideDot,
    compile_relayout fits_dotPieces renders_tightDot renders_wideDot {}⟩

end ScriptedPng
