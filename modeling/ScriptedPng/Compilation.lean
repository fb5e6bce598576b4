import ScriptedPng.Block.Chromaticities
import ScriptedPng.Block.Gamma
import ScriptedPng.Block.Header
import ScriptedPng.Block.Intent
import ScriptedPng.Block.Order
import ScriptedPng.Block.Palette
import ScriptedPng.Png.Writer

/-!
# Compiling a source

A source is compiled block by block. A block is a keyword and a body in braces; whether it is
allowed is found out before its body is read. All chunks in front of the pixel data are written when
the first pixels come, and pixels are written as soon as their block has been read.

## Main definitions

* `Compilation` — the state of compiling a source.
* `Compilation.block` — compiles the block that a keyword starts.
* `Compilation.finish` — completes the image at the end of the source.
* `Compilation.run` — compiles a whole source.
-/

namespace ScriptedPng

open Block Diagnostic Png

/-- The state of compiling a source. -/
structure Compilation extends Body where
  progress : Progress := {}
  writer : Writer
deriving DecidableEq

instance : HasRemaining Compilation where
  remaining compilation := compilation.lexer.remaining

/-- An action of compiling, which may fail; what it has done stays done. -/
abbrev CompileM := EStateM Failure Compilation

namespace Compilation

/-- The start of compiling a source to a sink. -/
def ofSource (source : Source) (sink : Sink) : Compilation where
  lexer := .ofSource source
  writer := .ofSink sink

/-- Reads from the source and changes the description of the image. -/
def read {α : Type} (action : BodyM α) : CompileM α := fun compilation =>
  match action compilation.toBody with
  | .ok value body => .ok value { compilation with toBody := body }
  | .error diagnostic body => .error (.diagnostic diagnostic) { compilation with toBody := body }

/-- Writes to the sink. -/
def write {α : Type} (action : WriterM α) : CompileM α := fun compilation =>
  match action compilation.writer with
  | .ok value writer => .ok value { compilation with writer }
  | .error failure writer => .error failure { compilation with writer }

/-- Fails if there is a cause; it has no line of its own. -/
def verify (result : Except Cause Unit) : CompileM Unit :=
  match result with
  | .ok () => pure ()
  | .error cause => throw (.ofCause cause)

/-- Writes all that comes before the pixel data, unless pixels have been given before. -/
def startPixels : CompileM Unit := do
  let compilation ← get
  if compilation.progress.hasPixels then pure ()
  else write (Writer.writeInfo compilation.image)

/-- Compiles the body of a block of data, which becomes a chunk as it is. -/
def data : CompileM Unit := do
  startPixels
  let octets ← read (Block.read (Lexer.collect .hex))
  write (Writer.writeChunk dataType (octetField octets))

/-- The alphabet for the pixels of an image. A letter or digit is enough for a sample of at most
five bits, and for an index into a palette of at most 62 entries. -/
def alphabet (image : Image) : Segment.Alphabet :=
  if image.sampleSize ≤ 5 ∨ image.color.palette ∧ image.palette.length ≤ 62 then .base62 else .hex

/-- Compiles the body of a block of pixels, which has to hold all pixels of the image. -/
def pixels : CompileM Unit := do
  let image := (← get).image
  startPixels
  let octets ← read (Block.read (Lexer.collect (alphabet image)))
  let expected := image.width * image.height * image.pixelSize
  if octets.length = expected then write (Writer.writeImage image octets)
  else throw (.ofCause (.sizeMismatch octets.length expected))

/-- Compiles the body of a block. -/
def body : Keyword → CompileM Unit
  | .header => read Block.header
  | .palette => read Block.palette
  | .chromaticities => read Block.chromaticities
  | .gamma => read Block.gamma
  | .intent => read Block.intent
  | .data => data
  | .pixels => pixels
  | keyword => throw (.ofCause (.unsupportedBlock keyword.name))

/-- The keyword that a token is. -/
def keyword? (token : Token) : Option Keyword :=
  if token.quoted then none else Keyword.ofName? token.text

/-- Reads the delimiter that opens a body. -/
def openBody : BodyM Unit := do
  match ← Block.read Lexer.next with
  | none => fail .unexpectedEnd
  | some token => if token.Is "\x7b" then pure () else failAt token .missingDelimiter

/-- Compiles the block that a token starts. -/
def block (token : Token) : CompileM Unit :=
  match keyword? token with
  | none => read (failAt token (.unknownBlock token.text))
  | some keyword => do
    read openBody
    let compilation ← get
    verify (compilation.progress.check compilation.image.color keyword)
    body keyword
    modify fun compilation => { compilation with progress := compilation.progress.add keyword }

theorem forward_read {α : Type} {action : BodyM α} (h : Forward action) :
    Forward (read action) := by
  intro compilation value after heq
  simp only [read] at heq
  split at heq
  · rename_i hread
    injection heq with hvalue hafter
    subst hafter
    exact h _ _ _ hread
  · cases heq

theorem takes_read {α : Type} {action : BodyM (Option α)} (h : Takes action) :
    Takes (read action) where
  forward := forward_read h.forward
  remaining_lt := by
    intro compilation item after heq
    simp only [read] at heq
    split at heq
    · rename_i hread
      injection heq with hvalue hafter
      subst hvalue hafter
      exact h.remaining_lt _ _ _ hread
    · cases heq

theorem forward_write {α : Type} (action : WriterM α) : Forward (write action) := by
  intro compilation value after heq
  simp only [write] at heq
  split at heq
  · injection heq with hvalue hafter
    subst hafter
    exact Nat.le_refl _
  · cases heq

theorem forward_get : Forward (get : CompileM Compilation) := by
  rintro compilation _ _ ⟨⟩
  exact Nat.le_refl _

theorem forward_verify (result : Except Cause Unit) : Forward (verify result) := by
  obtain cause | _ := result
  · exact .throw _
  · exact .pure _

theorem forward_startPixels : Forward startPixels :=
  .bind forward_get fun _ => .ite (.pure _) (forward_write _)

theorem forward_collect (alphabet : Segment.Alphabet) :
    Forward (read (Block.read (Lexer.collect alphabet))) :=
  forward_read (Block.forward_read (Lexer.forward_collect alphabet))

theorem forward_data : Forward data :=
  .bind forward_startPixels fun _ => .bind (forward_collect _) fun _ => forward_write _

theorem forward_pixels : Forward pixels :=
  .bind forward_get fun _ => .bind forward_startPixels fun _ => .bind (forward_collect _) fun _ =>
    .ite (forward_write _) (.throw _)

theorem forward_body (keyword : Keyword) : Forward (body keyword) := by
  unfold body
  split
  · exact forward_read forward_header
  · exact forward_read forward_palette
  · exact forward_read forward_chromaticities
  · exact forward_read forward_gamma
  · exact forward_read forward_intent
  · exact forward_data
  · exact forward_pixels
  · exact .throw _

theorem forward_openBody : Forward openBody := by
  refine .bind (Block.forward_read Lexer.takes_next.forward) fun found => ?_
  cases found
  · exact forward_fail _
  · exact .ite (.pure _) (forward_failAt _ _)

theorem forward_block (token : Token) : Forward (block token) := by
  unfold block
  split
  · exact forward_read (forward_failAt _ _)
  · refine .bind (forward_read forward_openBody) fun _ => .bind forward_get fun _ =>
      .bind (forward_verify _) fun _ => .bind (forward_body _) fun _ => ?_
    rintro compilation _ _ ⟨⟩
    exact Nat.le_refl _

/-- Reads the next token of the source. -/
def next : CompileM (Option Token) :=
  read (Block.read Lexer.next)

theorem takes_next : Takes next :=
  takes_read (Block.takes_read Lexer.takes_next)

/-- Compiles all blocks of the source. -/
def blocks : CompileM Unit :=
  forEach next block takes_next forward_block

/-- Completes the image at the end of the source. -/
def finish : CompileM Unit := do
  let compilation ← get
  verify (compilation.progress.checkEnd compilation.image.color)
  write Writer.writeEnd

/-- Compiles the whole source. A diagnostic without a line of its own belongs to the line reached,
or to the end once all blocks have been compiled. -/
def run : CompileM Unit := fun compilation =>
  match blocks compilation with
  | .error failure after => .error (failure.withLine (.at after.lexer.line)) after
  | .ok () after =>
    match finish after with
    | .error failure after => .error (failure.withLine .ending) after
    | .ok () after => .ok () after

end Compilation

end ScriptedPng
