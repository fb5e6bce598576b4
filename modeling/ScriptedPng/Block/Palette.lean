import ScriptedPng.Block.Body

/-!
# Palette blocks

A palette block lists the entries of the palette, each one as three constants in parentheses. There
are at most 256 of them.

## Main definitions

* `Block.palette` — reads the body of a palette block.
-/

namespace ScriptedPng.Block

namespace Palette

/-- A palette has at most so many entries. -/
def limit : Nat := 256

/-- Reads an entry up to the parenthesis that closes it. -/
def readColors : BodyM Rgb := do
  let red ← readConstant byte
  let _ ← read (Lexer.require ",")
  let green ← readConstant byte
  let _ ← read (Lexer.require ",")
  let blue ← readConstant byte
  let _ ← read (Lexer.require ")")
  return ⟨red, green, blue⟩

/-- Reads the entry that a token starts and appends it to the palette. -/
def readEntry (token : Token) : BodyM Unit := do
  if token.Is "(" then
    if (← image).palette.length = limit then failAt token .tooManyPaletteEntries
    else
      let entry ← readColors
      change fun image => { image with palette := image.palette ++ [entry] }
  else failAt token .badPaletteEntry

theorem forward_readColors : Forward readColors :=
  .bind (forward_readConstant _) fun _ => .bind (forward_require _) fun _ =>
    .bind (forward_readConstant _) fun _ => .bind (forward_require _) fun _ =>
      .bind (forward_readConstant _) fun _ => .bind (forward_require _) fun _ => .pure _

theorem forward_readEntry (token : Token) : Forward (readEntry token) :=
  .ite (.bind forward_image fun _ =>
      .ite (forward_failAt _ _) (.bind forward_readColors fun _ => forward_change _))
    (forward_failAt _ _)

end Palette

/-- Reads the body of a palette block. -/
def palette : BodyM Unit := do
  forEachItem Palette.readEntry Palette.forward_readEntry
  change fun image => { image with given := { image.given with palette := true } }

theorem forward_palette : Forward palette :=
  .bind (forward_forEachItem _ _) fun _ => forward_change _

end ScriptedPng.Block
