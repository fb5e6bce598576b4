import ScriptedPng.Diagnostic
import ScriptedPng.Number.Double
import ScriptedPng.Png.Scanline
import ScriptedPng.Record.Field

/-!
# Failures

Reading a source and writing its image fail with a diagnostic, as a rule. What is beyond the
diagnostics ends the whole run.

## Main definitions

* `Failure` — a diagnostic, or a fault beyond them.
-/

namespace ScriptedPng

/-- Why reading a source or writing its image has failed. -/
inductive Failure where
  | diagnostic (diagnostic : Diagnostic)
  /-- Data of a chunk has no form. -/
  | record (fault : Record.Fault)
  /-- Pixel data lacks rows. -/
  | rows (fault : Png.RowFault)
  /-- A number has no integer part. -/
  | number (fault : Double.NoInteger)
  /-- The type of a chunk is no text. -/
  | unreadableType
deriving DecidableEq

namespace Failure

/-- A failure without a line of its own. -/
def ofCause (cause : Diagnostic.Cause) : Failure :=
  .diagnostic ⟨cause, none⟩

/-- The failure on the given line, unless it has a line already or is beyond diagnostics. -/
def withLine (line : Line) : Failure → Failure
  | .diagnostic found => .diagnostic (found.withLine line)
  | failure => failure

end Failure

end ScriptedPng
