/-!
# Blanks and punctuation

The character classes of the notation. They are classes of ASCII characters; every other character
is an ordinary one and may stand in a word.

## Main definitions

* `Text.isBlank` — the six blanks that separate tokens and may be spread over data segments.
* `Text.isPunctuation` — the 32 punctuation characters.
* `Text.isSpace` — the blanks of all scripts that may surround a number.
-/

namespace ScriptedPng.Text

/-- Space, tab, newline, vertical tab, form feed and carriage return. -/
def isBlank (c : Char) : Bool :=
  c = ' ' || ('\t' ≤ c && c ≤ '\r')

/-- The visible ASCII characters that are neither letters nor digits. -/
def isPunctuation (c : Char) : Bool :=
  ('!' ≤ c && c ≤ '/') || (':' ≤ c && c ≤ '@') || ('[' ≤ c && c ≤ '`') || ('{' ≤ c && c ≤ '~')

/-- The blanks that may surround a decimal number: those of the notation and those outside ASCII. -/
def isSpace (c : Char) : Bool :=
  isBlank c || c.toNat ∈
    [0x85, 0xa0, 0x1680, 0x2000, 0x2001, 0x2002, 0x2003, 0x2004, 0x2005, 0x2006, 0x2007, 0x2008,
     0x2009, 0x200a, 0x2028, 0x2029, 0x202f, 0x205f, 0x3000]

theorem isBlank_newline : isBlank '\n' = true := by decide

theorem isPunctuation_eq_false_of_isBlank {c : Char} (h : isBlank c = true) :
    isPunctuation c = false := by
  simp only [isBlank, Bool.or_eq_true, decide_eq_true_eq, Bool.and_eq_true, Char.le_def] at h
  rcases h with rfl | ⟨h₁, h₂⟩
  · decide
  · have h₃ : c.toNat ≤ 13 := h₂
    simp only [isPunctuation, Bool.or_eq_false_iff, Bool.and_eq_false_iff, decide_eq_false_iff_not,
      Char.le_def, UInt32.le_iff_toNat_le]
    refine ⟨⟨⟨.inl ?_, .inl ?_⟩, .inl ?_⟩, .inl ?_⟩ <;> · simp; omega

end ScriptedPng.Text
