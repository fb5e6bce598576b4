import ScriptedPng.Lexer
import ScriptedPng.Segment.Collector

/-!
# Reading data segments

A data segment is read character by character up to the delimiter that closes its block.

## Main definitions

* `Lexer.collect` — the octets of the data segment that comes next.
-/

namespace ScriptedPng.Lexer

/-- Reads the rest of a data segment of which a part has been collected. -/
def collectInto (collector : Segment.Collector) : List Reading → LexerM Octets
  | [] => fun lexer => finish (fail .endInData) (lexer.skipTo [])
  | none :: rest => fun lexer => fail .endInData (lexer.skipTo rest)
  | some c :: rest => fun lexer =>
    let after := lexer.skipTo rest
    let after := if c = '\n' then { after with line := after.line + 1 } else after
    if c = '}' then
      match collector.finish with
      | .ok octets => .ok octets after
      | .error cause => .error ⟨cause, none⟩ after
    else
      match collector.feed c with
      | .ok collector => collectInto collector rest after
      | .error cause => .error ⟨cause, none⟩ after

/-- The octets of a data segment, which is read together with the delimiter that closes it. -/
def collect (alphabet : Segment.Alphabet) : LexerM Octets := fun lexer =>
  collectInto { alphabet } lexer.source.ahead lexer

end ScriptedPng.Lexer
