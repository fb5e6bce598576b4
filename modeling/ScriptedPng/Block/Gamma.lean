import ScriptedPng.Block.Body
import ScriptedPng.Block.Keyword

/-!
# Gamma blocks

A gamma block holds one double-precision constant. It becomes part of the description even if the
block is not closed after it.

## Main definitions

* `Block.gamma` — reads the body of a gamma block.
-/

namespace ScriptedPng.Block

/-- Reads the body of a gamma block. -/
def gamma : BodyM Unit := do
  let gamma ← readConstant double
  change ({ · with gamma })
  close Keyword.gamma.name
  change fun image => { image with given := { image.given with gamma := true } }

theorem forward_gamma : Forward gamma :=
  .bind (forward_readConstant _) fun _ => .bind (forward_change _) fun _ =>
    .bind (forward_close _) fun _ => forward_change _

end ScriptedPng.Block
