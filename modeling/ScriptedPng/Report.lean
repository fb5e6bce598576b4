import ScriptedPng.Compilation

/-!
# Reports

The one place where diagnostics end up: a compilation gives a status, and a line for the user if it
has failed.

## Main definitions

* `Status` — how a compilation has ended.
* `Report` — a status with the text for the user.
* `Report.ofResult` — the report on the result of a compilation.
* `compile` — compiles a source to a sink.
-/

namespace ScriptedPng

/-- How a compilation has ended. -/
inductive Status where
  | success
  /-- The source is wrong. -/
  | badSource
  /-- The image cannot be written. -/
  | badImage
deriving DecidableEq, Repr

/-- The number that stands for the status. -/
def Status.code : Status → Nat
  | success => 0
  | badSource => 1
  | badImage => 2

/-- A status with the text for the user. -/
structure Report where
  status : Status
  text : String := ""
deriving DecidableEq, Repr

namespace Report

variable [Diagnostic.Quotes]

/-- The report on a diagnostic of a source with the given name. -/
def ofDiagnostic (name : String) (diagnostic : Diagnostic) : Report where
  status := if diagnostic.isBackend then .badImage else .badSource
  text := diagnostic.report name ++ "\n"

/-- The report on a result, unless it is a failure beyond diagnostics. -/
def ofResult (name : String) : Except Failure Unit → Except Failure Report
  | .ok () => .ok { status := .success }
  | .error (.diagnostic diagnostic) => .ok (ofDiagnostic name diagnostic)
  | .error failure => .error failure

end Report

/-- Compiles a source to a sink: the result, and what has become of everything. -/
def compile (source : Source) (sink : Png.Sink) : Except Failure Unit × Compilation :=
  match Compilation.run (.ofSource source sink) with
  | .ok () compilation => (.ok (), compilation)
  | .error failure compilation => (.error failure, compilation)

end ScriptedPng
