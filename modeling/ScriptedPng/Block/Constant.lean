import ScriptedPng.Diagnostic
import ScriptedPng.Number.DoubleConstant
import ScriptedPng.Number.IntegerConstant
import ScriptedPng.Token

/-!
# Constants of blocks

A constant is read from one token, whether quoted or not, and has to lie in the range of its kind.

## Main definitions

* `Block.long`, `Block.byte`, `Block.double` — the value of a token as a constant.
-/

namespace ScriptedPng.Block

open Diagnostic

/-- The largest value of a long constant. -/
def longLimit : Nat := 0x7ffffffe

/-- The largest value of a byte constant. -/
def byteLimit : Nat := 255

/-- The value of a token as an integer constant up to a limit. -/
def integer (kind : Constant) (limit : Nat) : Option Token → Except Diagnostic Nat
  | none => .error ⟨.endInConstant kind, none⟩
  | some token =>
    match IntegerConstant.parse token.text with
    | .error _ => .error ⟨.badConstant kind token.text, some (.at token.line)⟩
    | .ok value =>
      if limit < value then .error ⟨.constantOutOfRange kind token.text, some (.at token.line)⟩
      else .ok value

/-- The value of a token as a long constant. -/
def long : Option Token → Except Diagnostic Nat :=
  integer .long longLimit

/-- The value of a token as a byte constant. -/
def byte : Option Token → Except Diagnostic Nat :=
  integer .byte byteLimit

/-- The value of a token as a double-precision constant, which is finite and not negative. -/
def double : Option Token → Except Diagnostic Double
  | none => .error ⟨.endInConstant .double, none⟩
  | some token =>
    match DoubleConstant.parse? token.text with
    | none => .error ⟨.badConstant .double token.text, some (.at token.line)⟩
    | some value =>
      if value.IsFinite ∧ ¬ value.IsNegative then .ok value
      else .error ⟨.constantOutOfRange .double token.text, some (.at token.line)⟩

end ScriptedPng.Block
