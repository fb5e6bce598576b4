import ScriptedPng.Text.Blank

/-!
# Tokens

A token is a word, a punctuation character, or a quoted string. Words are made of all characters but
blanks and punctuation; a dot is allowed inside a word, so that a decimal number is one token.

## Main definitions

* `Token` — a token with the line where it starts.
* `Token.Is` — the token is the given word or punctuation character.
-/

namespace ScriptedPng

/-- A token with the line where it starts. -/
structure Token where
  text : String
  line : Nat
  quoted : Bool
deriving DecidableEq, Repr

namespace Token

/-- The token is the given word or punctuation character; a quoted string never is. -/
def Is (token : Token) (text : String) : Prop :=
  token.quoted = false ∧ token.text = text

instance (token : Token) (text : String) : Decidable (token.Is text) :=
  inferInstanceAs (Decidable (_ ∧ _))

/-- A character that may follow the first one of a word. -/
def isWordChar (c : Char) : Bool :=
  !Text.isBlank c && (!Text.isPunctuation c || c = '.')

/-- A character that starts and ends a quoted string. -/
def isQuote (c : Char) : Bool :=
  c = '"' || c = '\''

/-- Words, and strings without their quotes, have at most so many characters. -/
def lengthLimit : Nat := 80

/-- The character that starts a comment. -/
def commentMark : Char := '#'

end Token

end ScriptedPng
