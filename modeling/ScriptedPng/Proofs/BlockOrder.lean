import Mathlib.Control.Monad.Basic
import ScriptedPng.Proofs.Step

/-!
# The order of compiled blocks

One compilation may be given blocks one after the other, from whatever source, and go on after a
block that has failed. The blocks that it has compiled are always the beginning of a word of the
language of block orders, and at any time it lets pass exactly what goes on to be one.

## Main definitions

* `Compilation.Compiled` — what a compilation has come to, with the blocks it has compiled.

## Main statements

* `Compilation.compiled_order` — the order of blocks, at any time and at the end of a run.
-/

namespace ScriptedPng

open Block Diagnostic Png

namespace Block

variable {indexed : Bool} {names : List Keyword}

theorem IsStart.header_mem (h : IsStart indexed names) (hne : names ≠ []) : .header ∈ names := by
  rcases isStart_iff.1 h with rfl | ⟨before, palette, pixels, rfl, -⟩
  · exact absurd rfl hne
  · exact List.mem_cons_self

theorem IsStart.indexed_of_palette_mem (h : IsStart indexed names) (hmem : .palette ∈ names) :
    indexed = true := by
  rcases isStart_iff.1 h with rfl | ⟨before, palette, pixels, rfl, hparts⟩
  · cases hmem
  rcases hparts.palette with rfl | ⟨hindexed, -⟩
  · have hbefore : .palette ∉ before := fun hmem => by
      have := hparts.mem_properties _ hmem
      simp [properties] at this
    rcases hparts.pixels with rfl | rfl | ⟨n, rfl⟩ <;> simp [hbefore] at hmem
  · exact hindexed

/-- Every block but the header comes after the header. -/
theorem Progress.Allowed.header_mem {color : ColorFlags} {name : Keyword}
    (h : Progress.Allowed names color name) (hname : name ≠ .header) : .header ∈ names := by
  rcases Progress.allowed_iff.1 h with ⟨hheader, -⟩ | ⟨-, h, -⟩ | ⟨-, h, -⟩ | ⟨-, h, -⟩ | ⟨-, h, -⟩
  · exact absurd hheader hname
  all_goals exact h

end Block

namespace Compilation

/-- What a compilation has come to: the keywords of the blocks it has compiled, whether the header
among them says that there is a palette, and the state. A block that fails is skipped. What is read
or written between blocks is of no account. -/
inductive Compiled : List Keyword → Bool → Compilation → Prop
  | start (source : Source) (sink : Sink) : Compiled [] false (.ofSource source sink)
  | block {names : List Keyword} {indexed : Bool} {before after : Compilation} {token : Token}
      {keyword : Keyword} (h : Compiled names indexed before)
      (hkeyword : keyword? token = some keyword) (hblock : block token before = .ok () after) :
      Compiled (names ++ [keyword])
        (if keyword = .header then after.image.color.palette else indexed) after
  | skip {names : List Keyword} {indexed : Bool} {before after : Compilation} {token : Token}
      {failure : Failure} (h : Compiled names indexed before)
      (hblock : Compilation.block token before = .error failure after) :
      Compiled names indexed after
  | between {names : List Keyword} {indexed : Bool} {compilation : Compilation} (lexer : Lexer)
      (writer : Writer) (h : Compiled names indexed compilation) :
      Compiled names indexed { compilation with lexer, writer }

/-- A block that has been compiled. -/
theorem Compiled.of_ended {names : List Keyword} {indexed : Bool} {before : Compilation}
    {token : Token} {keyword : Keyword} (h : Compiled names indexed before)
    (hkeyword : keyword? token = some keyword)
    (hok : (ended (Compilation.block token before)).1 = .ok ()) :
    Compiled (names ++ [keyword])
      (if keyword = .header then (ended (Compilation.block token before)).2.image.color.palette
        else indexed)
      (ended (Compilation.block token before)).2 := by
  cases hblock : Compilation.block token before with
  | ok _ after => exact h.block hkeyword hblock
  | error failure after =>
    rw [hblock] at hok
    cases hok

/-- A block that has failed. -/
theorem Compiled.of_failed {names : List Keyword} {indexed : Bool} {before : Compilation}
    {token : Token} (h : Compiled names indexed before)
    (hfailed : (ended (Compilation.block token before)).1 ≠ .ok ()) :
    Compiled names indexed (ended (Compilation.block token before)).2 := by
  cases hblock : Compilation.block token before with
  | ok _ after =>
    rw [hblock] at hfailed
    exact absurd rfl hfailed
  | error failure after => exact h.skip hblock

/-- The progress is that of the blocks, which are a beginning, and the image has the palette flag of
their header. -/
structure Ordered (names : List Keyword) (indexed : Bool) (compilation : Compilation) : Prop where
  progress : compilation.progress.Matches names
  isStart : IsStart indexed names
  color : names ≠ [] → compilation.image.color.palette = indexed

/-- Blocks after the first one leave the colors of the image alone. -/
theorem closed_color {names : List Keyword} {compilation : Compilation} {keyword : Keyword}
    (h : compilation.progress.Matches names)
    (hcheck : compilation.progress.check compilation.image.color keyword = .ok ()) :
    Closed keyword fun image => names ≠ [] → image.color = compilation.image.color := by
  intro before after hchange hbefore hne
  by_cases hkeyword : keyword = .header
  · subst hkeyword
    exact absurd ((h.check_eq_ok_iff_allowed _ _).1 hcheck) hne
  · exact (hchange.color_eq hkeyword).trans (hbefore hne)

/-- One block, compiled or not, keeps the order. -/
theorem outcome_block_ordered {names : List Keyword} {indexed : Bool} {compilation : Compilation}
    (h : Ordered names indexed compilation) (token : Token) :
    Outcome (fun _ after => ∃ keyword, keyword? token = some keyword ∧
        Ordered (names ++ [keyword])
          (if keyword = .header then after.image.color.palette else indexed) after)
      (fun _ after => Ordered names indexed after) (block token compilation) := by
  obtain ⟨hprogress, hstart, hcolor⟩ := h
  refine (outcome_block_at (fun keyword => closed_color hprogress) fun _ => rfl).mono ?_ ?_
  · rintro _ after ⟨keyword, hkeyword, hcheck, hadd, himage⟩
    have hallowed := (hprogress.check_eq_ok_iff_allowed _ _).1 hcheck
    refine ⟨keyword, hkeyword, hadd ▸ hprogress.add keyword, ?_, fun _ => ?_⟩
    · by_cases hheader : keyword = .header
      · subst hheader
        obtain rfl : names = [] := hallowed
        exact isStart_singleton_header
      · rw [if_neg hheader]
        exact (hprogress.check_eq_ok_iff hstart hcolor).1 hcheck
    · by_cases hheader : keyword = .header
      · rw [if_pos hheader]
      · have hne := List.ne_nil_of_mem (hallowed.header_mem hheader)
        rw [if_neg hheader, himage hne, hcolor hne]
  · rintro _ after ⟨hsame, himage⟩
    exact ⟨hsame ▸ hprogress, hstart, fun hne => by rw [himage hne, hcolor hne]⟩

theorem Compiled.ordered {names : List Keyword} {indexed : Bool} {compilation : Compilation}
    (h : Compiled names indexed compilation) : Ordered names indexed compilation := by
  induction h with
  | start source sink => exact ⟨⟨rfl, rfl⟩, isStart_iff.2 (.inl rfl), fun h => absurd rfl h⟩
  | @block names indexed before after token keyword _ hkeyword hblock ih =>
    have := outcome_block_ordered ih token
    rw [hblock] at this
    obtain ⟨found, hfound, hordered⟩ := this
    obtain rfl : keyword = found := Option.some.inj (hkeyword.symm.trans hfound)
    exact hordered
  | @skip names indexed before after token failure _ hblock ih =>
    have := outcome_block_ordered ih token
    rwa [hblock] at this
  | between lexer writer _ ih => exact ⟨ih.progress, ih.isStart, ih.color⟩

/-! ## Runs -/

variable {names : List Keyword} {indexed : Bool}

/-- Blocks compiled after others. -/
def Later (names : List Keyword) (compilation : Compilation) : Prop :=
  ∃ more indexed, Compiled (names ++ more) indexed compilation

/-- Compiling all blocks of a source goes on from the blocks compiled before. -/
theorem outcome_blocks {compilation : Compilation} (h : Compiled names indexed compilation) :
    Outcome (fun _ after => Later names after) (fun _ _ => True) (blocks compilation) := by
  refine Outcome.foldEach (fun _ state => Later names state)
    (fun _ _ state => Later names state) ⟨[], indexed, by simpa using h⟩ ?_ ?_
  · rintro _ state ⟨more, indexed, hstate⟩
    simp only [next, read, Block.read]
    cases Lexer.next state.lexer with
    | error diagnostic lexer => trivial
    | ok found lexer =>
      have hlater : Later names { state with lexer } := ⟨more, indexed, hstate.between lexer _⟩
      cases found <;> exact hlater
  · rintro _ token state ⟨more, indexed, hstate⟩
    cases hblock : block token state with
    | error failure after => trivial
    | ok _ after =>
      have := outcome_block_ordered hstate.ordered token
      rw [hblock] at this
      obtain ⟨keyword, hkeyword, -⟩ := this
      exact ⟨more ++ [keyword], _, by simpa using hstate.block hkeyword hblock⟩

/-- A run that comes to a good end has compiled the blocks of a whole image. -/
theorem outcome_run {compilation : Compilation} (h : Compiled names indexed compilation) :
    Outcome (fun _ after => ∃ more indexed, Compiled (names ++ more) indexed after ∧
        .header ∈ names ++ more ∧ (.data ∈ names ++ more ∨ .pixels ∈ names ++ more) ∧
        (.palette ∈ names ++ more ↔ indexed = true))
      (fun _ _ => True) (run compilation) := by
  refine outcome_run_of_finish (outcome_blocks h) ?_ fun _ _ _ _ => trivial
  rintro after ⟨more, indexed, hafter⟩
  obtain ⟨hprogress, hstart, hcolor⟩ := hafter.ordered
  rw [finish_eq]
  refine outcome_verify (fun _ _ => trivial) ?_
  intro hend
  simp only [write]
  cases Writer.writeEnd after.writer with
  | error failure writer => trivial
  | ok _ writer =>
    obtain ⟨hpalette, hpixels⟩ := (hprogress.checkEnd_eq_ok_iff _).1 hend
    have hne : names ++ more ≠ [] := by
      rcases hpixels with hmem | hmem <;> exact List.ne_nil_of_mem hmem
    refine ⟨more, indexed, hafter.between after.lexer writer, hstart.header_mem hne, hpixels,
      hstart.indexed_of_palette_mem, fun hindexed => hpalette ?_⟩
    rw [hcolor hne, hindexed]

/-- The order of blocks. The blocks compiled are the beginning of a word; nothing follows pixels but
data after data; a block that is not supported is never counted; the guards let pass every block
that goes on to be a beginning; and a run that comes to a good end has compiled a header, pixels,
and a palette just if the header says that there is one. -/
theorem compiled_order {compilation : Compilation} (h : Compiled names indexed compilation) :
    IsStart indexed names ∧
    (∀ front name rest other, names = front ++ name :: rest → name = .data ∨ name = .pixels →
      other ∈ rest → name = .data ∧ other = .data) ∧
    (∀ name, compilation.progress.count name = names.count name ∧
      (name.isSupported = false → compilation.progress.count name = 0)) ∧
    (∀ name, name.isSupported = true → IsStart indexed (names ++ [name]) →
      compilation.progress.check compilation.image.color name = .ok ()) ∧
    Outcome (fun _ after => ∃ more indexed, Compiled (names ++ more) indexed after ∧
        .header ∈ names ++ more ∧ (.data ∈ names ++ more ∨ .pixels ∈ names ++ more) ∧
        (.palette ∈ names ++ more ↔ indexed = true))
      (fun _ _ => True) (run compilation) := by
  obtain ⟨hprogress, hstart, hcolor⟩ := h.ordered
  refine ⟨hstart, ?_, fun name => ⟨hprogress.count_eq name, fun hname => ?_⟩, ?_, outcome_run h⟩
  · rintro front name rest other rfl
    exact hstart.pixels_end
  · rw [hprogress.count_eq, List.count_eq_zero]
    intro hmem
    have := hstart.isSupported hmem
    simp [hname] at this
  · exact fun name _ hnext => (hprogress.check_eq_ok_iff hstart hcolor).2 hnext

/-- A compilation after blocks one after the other, some of which may have failed. -/
def afterBlocks (keywords : List String) (text : String) : Compilation :=
  keywords.foldl (fun compilation keyword => (ended (block ⟨keyword, 1, false⟩ compilation)).2)
    (.ofSource (.ofChars text.toList) {})

/-- The texts of a header, of another one that is not read on, of a gamma and of a palette. -/
def paletteText : String :=
  "\x7bwidth 3 height 2 bitdepth 2 using palette\x7d\x7b\x7b0.45\x7d" ++
    "\x7b(0,0,0)(255,0,0)(0,0,255)\x7d"

/-- A compilation after a header, another one, which has failed, a gamma and a palette. -/
def paletteBlocks : Compilation :=
  afterBlocks ["IHDR", "IHDR", "gAMA", "PLTE"] paletteText

theorem compiled_paletteBlocks : Compiled [.header, .gamma, .palette] true paletteBlocks := by
  have hheader : Compiled [.header] true (afterBlocks ["IHDR"] paletteText) := by
    have hcolor : (afterBlocks ["IHDR"] paletteText).image.color.palette = true := by
      decide +kernel
    rw [← hcolor]
    exact Compiled.of_ended (.start _ _) rfl (by decide +kernel)
  have hagain : Compiled [.header] true (afterBlocks ["IHDR", "IHDR"] paletteText) :=
    hheader.of_failed (by decide +kernel)
  have hgamma : Compiled [.header, .gamma] true
      (afterBlocks ["IHDR", "IHDR", "gAMA"] paletteText) :=
    hagain.of_ended rfl (by decide +kernel)
  exact hgamma.of_ended rfl (by decide +kernel)

/-- The header that has failed does not count, and pixels may follow in a block of either kind. -/
theorem compiled_order_paletteBlocks :
    Compiled [.header, .gamma, .palette] true paletteBlocks ∧
    IsStart true [.header, .gamma, .palette] ∧
    paletteBlocks.progress.check paletteBlocks.image.color .pixels = .ok () ∧
    paletteBlocks.progress.check paletteBlocks.image.color .data = .ok () := by
  obtain ⟨hstart, -, -, hcheck, -⟩ := compiled_order compiled_paletteBlocks
  have hparts (name : Keyword) (hname : IsPixels [name]) : Parts true [.gamma] [.palette] [name] :=
    ⟨by simp, by decide, .inr ⟨rfl, rfl⟩, .inr hname⟩
  exact ⟨compiled_paletteBlocks, hstart, hcheck .pixels rfl (hparts .pixels (.inl rfl)).isStart,
    hcheck .data rfl (hparts .data (.inr ⟨0, rfl⟩)).isStart⟩

end Compilation

end ScriptedPng
