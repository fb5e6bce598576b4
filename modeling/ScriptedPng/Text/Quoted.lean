import ScriptedPng.Text.Hex
import ScriptedPng.Text.Printable

/-!
# Quoted text

How a text or a sequence of octets is shown between quotes. The quote is the single one, unless the
text holds single quotes and no double ones. The quote itself and the backslash are escaped by a
backslash; a character that is not shown as it is becomes `\t`, `\n`, `\r` or its code point in
hexadecimal.

## Main definitions

* `Text.quoted` — a text between quotes.
* `Text.quotedOctets` — octets between quotes, marked by a leading `b`.
-/

namespace ScriptedPng.Text

/-- The quote that surrounds the characters. -/
def quoteFor (chars : List Char) : Char :=
  if '\'' ∈ chars ∧ '"' ∉ chars then '"' else '\''

/-- The shortest of the three forms of a code point that holds it. -/
def codePoint (n : Nat) : String :=
  if n < 0x100 then "\\x" ++ hex 2 n
  else if n < 0x10000 then "\\u" ++ hex 4 n
  else "\\U" ++ hex 8 n

/-- One character inside quotes; `shown` tells which characters need no escape. -/
def escape (shown : Char → Bool) (quote c : Char) : String :=
  if c = quote || c = '\\' then String.ofList ['\\', c]
  else if c = '\t' then "\\t"
  else if c = '\n' then "\\n"
  else if c = '\r' then "\\r"
  else if shown c then String.singleton c
  else codePoint c.toNat

/-- The characters between the quotes that suit them. -/
def enclose (shown : Char → Bool) (chars : List Char) : String :=
  let quote := quoteFor chars
  String.singleton quote ++ String.join (chars.map (escape shown quote)) ++ String.singleton quote

/-- A text between quotes, all printable characters shown as they are. -/
def quoted (text : String) : String :=
  enclose isPrintable text.toList

/-- Octets between quotes, only visible ASCII characters and the space shown as they are. -/
def quotedOctets (octets : Octets) : String :=
  "b" ++ enclose (fun c => ' ' ≤ c && c ≤ '~') octets.toText.toList

end ScriptedPng.Text
