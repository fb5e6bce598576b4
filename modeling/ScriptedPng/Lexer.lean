import ScriptedPng.Diagnostic
import ScriptedPng.Source
import ScriptedPng.Token

/-!
# Lexer

The lexer reads a source as tokens, or character by character where a block holds data. Blanks and
comments stand between tokens; a comment goes from its mark to the end of the line. A word takes the
blank that ends it along, and leaves a punctuation character to be read again. The last token can be
pushed back, and is then given again.

## Main definitions

* `Lexer` — the source with the line reached and the last token.
* `Lexer.next` — the next token, or none at the end.
* `Lexer.inner`, `Lexer.require` — the next token of a block.
* `Lexer.readChar` — the next character.
* `Lexer.push` — pushes the last token back.
-/

namespace ScriptedPng

/-- The state of reading a source. -/
structure Lexer where
  source : Source
  /-- One more than the newlines read. -/
  line : Nat := 1
  /-- The last token. -/
  token : Option Token := none
  /-- The last token is to be given again. -/
  pushed : Bool := false
deriving DecidableEq, Repr

/-- An action on the lexer, which may fail with a diagnostic; what it has read stays read. -/
abbrev LexerM := EStateM Diagnostic Lexer

namespace Lexer

/-- The lexer at the start of a source. -/
def ofSource (source : Source) : Lexer where
  source := source

/-- Fails with a cause on the line reached. -/
def fail {α : Type} (cause : Diagnostic.Cause) : LexerM α := fun lexer =>
  .error ⟨cause, some (.at lexer.line)⟩ lexer

/-- Finds the end of the source, which fails if the source is faulty. -/
def finish {α : Type} (onEnd : LexerM α) : LexerM α := fun lexer =>
  match lexer.source.fault with
  | none => onEnd lexer
  | some reason => .error ⟨.readFailed reason, none⟩ lexer

/-- The lexer with the given readings to come, none of them put back. -/
def skipTo (rest : List Reading) (lexer : Lexer) : Lexer :=
  { lexer with source := lexer.source.skipTo rest }

/-- The next character, or none at the end. -/
def readChar : LexerM Reading := fun lexer =>
  match lexer.source.read with
  | .error reason => .error ⟨.readFailed reason, none⟩ lexer
  | .ok (reading, source) =>
    .ok reading
      { lexer with source, line := if reading = some '\n' then lexer.line + 1 else lexer.line }

/-- Reads over blanks and comments, counting lines. The first argument tells whether the readings
start inside a comment. -/
def skipGap : Bool → Nat → List Reading → Nat × List Reading
  | _, line, [] => (line, [])
  | _, line, some '\n' :: rest => skipGap false (line + 1) rest
  | true, line, _ :: rest => skipGap true line rest
  | false, line, none :: rest => (line, none :: rest)
  | false, line, some c :: rest =>
    if c = Token.commentMark then skipGap true line rest
    else if Text.isBlank c then skipGap false line rest
    else (line, some c :: rest)

/-- The characters before the first reading that is the end or fails the test, and the readings from
there on. -/
def span (test : Char → Bool) : List Reading → List Char × List Reading
  | some c :: rest =>
    if test c then
      let (chars, after) := span test rest
      (c :: chars, after)
    else
      ([], some c :: rest)
  | rest => ([], rest)

/-- Takes a token as the last one. -/
def deliver (text : String) (line : Nat) (quoted : Bool) : LexerM (Option Token) := fun lexer =>
  let token : Token := ⟨text, line, quoted⟩
  .ok (some token) { lexer with token := some token }

/-- Reads the rest of a word whose first character has been read; `rest` is what follows it. -/
def readWord (first : Char) (rest : List Reading) : LexerM (Option Token) := fun lexer =>
  let (body, after) := span Token.isWordChar rest
  let word := deliver (String.ofList (first :: body)) lexer.line false
  if Token.lengthLimit ≤ body.length then
    fail .wordTooLong (lexer.skipTo (rest.drop Token.lengthLimit))
  else
    match after with
    | [] => finish word (lexer.skipTo [])
    | none :: after => word (lexer.skipTo after)
    | some c :: after =>
      if c = '\n' then word { lexer.skipTo after with line := lexer.line + 1 }
      else if Text.isBlank c then word (lexer.skipTo after)
      else
        let source := { lexer.source with ahead := some c :: after, held := true }
        word { lexer with source }

/-- Reads the rest of a string whose first quote has been read; `rest` is what follows it. -/
def readString (quote : Char) (rest : List Reading) : LexerM (Option Token) := fun lexer =>
  let (body, after) := span (fun c => c ≠ quote && c ≠ '\n') rest
  if Token.lengthLimit < body.length then
    fail .stringTooLong (lexer.skipTo (rest.drop (Token.lengthLimit + 1)))
  else
    match after with
    | [] => finish (fail .unterminatedString) (lexer.skipTo [])
    | none :: after => fail .unterminatedString (lexer.skipTo after)
    | some c :: after =>
      if c = quote then deliver (String.ofList body) lexer.line true (lexer.skipTo after)
      else fail .newlineInString (lexer.skipTo after)

/-- The next token of the source, or none at its end. -/
def scan : LexerM (Option Token) := fun lexer =>
  let (line, rest) := skipGap false lexer.line lexer.source.ahead
  let lexer := { lexer with line }
  match rest with
  | [] => finish (pure none) (lexer.skipTo [])
  | none :: rest => .ok none (lexer.skipTo rest)
  | some c :: rest =>
    if Token.isQuote c then readString c rest lexer
    else if Text.isPunctuation c then deliver (String.singleton c) line false (lexer.skipTo rest)
    else readWord c rest lexer

/-- The next token, or none at the end of the source. A token pushed back comes first. -/
def next : LexerM (Option Token) := fun lexer =>
  if lexer.pushed then .ok lexer.token { lexer with pushed := false } else scan lexer

/-- Pushes the last token back; `none` if there is none or it is pushed back already. -/
def push (lexer : Lexer) : Option Lexer :=
  if lexer.pushed ∨ lexer.token = none then none else some { lexer with pushed := true }

/-- The next token of a block, or none if it closes the block. -/
def inner : LexerM (Option Token) := do
  match ← next with
  | none => fail .unexpectedEnd
  | some token => return if token.Is "\x7d" then none else some token

/-- The next token, which has to be the given word or punctuation character. -/
def require (text : String) : LexerM Token := do
  match ← next with
  | none => fail .unexpectedEnd
  | some token =>
    if token.Is text then return token
    else throw ⟨.unexpectedToken token.text, some (.at token.line)⟩

end Lexer

end ScriptedPng
