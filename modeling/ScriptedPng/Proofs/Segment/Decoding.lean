import ScriptedPng.Proofs.Lexer.Pieces

/-!
# Data segments are decoded exactly

What is read of a data segment is what its characters give when they are decoded, and nothing is
read beyond the delimiter that closes the segment or the character that spoils it. Whether
characters can be decoded is told by those that are no blanks, and all renderings of octets are
decoded to them.

## Main definitions

* `Alphabet.IsDigit`, `Alphabet.width` — the characters that stand in a segment, and how many of
  them make an octet.
* `Lexer.skipOver` — the lexer behind characters.

## Main statements

* `Segment.exists_decode_iff` — what can be decoded.
* `Segment.decode_hex_of_toLower`, `Segment.decode_of_spells` — renderings of octets are decoded.
* `Lexer.collectInto_append` — a segment is collected character by character.
* `Lexer.collect_closed`, `Lexer.collect_open`, `Lexer.collect_spoilt` — what is read of a segment
  that is closed, ends with the source, or is spoilt.
* `Lexer.collect_exact` — all of this together.
-/

namespace ScriptedPng

open Text Diagnostic

namespace Segment

/-! ## Digits -/

/-- The hexadecimal digits of both cases. -/
def hexDigits : List Char := "0123456789abcdefABCDEF".toList

namespace Alphabet

/-- The characters that stand in a segment, apart from blanks. -/
def IsDigit : Alphabet → Char → Prop
  | base62, c => c.isAlphanum = true
  | hex, c => c ∈ hexDigits

/-- So many digits make an octet. -/
def width : Alphabet → Nat
  | base62 => 1
  | hex => 2

end Alphabet

/-- What holds of all ASCII characters holds of each one. -/
theorem forall_ascii {p : Char → Prop} (h : ∀ n < 128, p (Char.ofNat n)) {c : Char}
    (hlt : c.toNat < 128) : p c := by
  have hchar := h c.toNat hlt
  rwa [Char.ofNat_toNat] at hchar

theorem lt_of_le_ascii {c last : Char} (h : c ≤ last) (hlast : last.toNat < 128) :
    c.toNat < 128 :=
  Nat.lt_of_le_of_lt (Char.le_def.1 h : c.toNat ≤ last.toNat) hlast

theorem isSome_base62Value?_iff (c : Char) : (base62Value? c).isSome ↔ c.isAlphanum = true := by
  have hisSome : (base62Value? c).isSome ↔
      ('0' ≤ c ∧ c ≤ '9') ∨ ('a' ≤ c ∧ c ≤ 'z') ∨ ('A' ≤ c ∧ c ≤ 'Z') := by
    unfold base62Value?
    grind
  have hranges : c.isAlphanum = (decide ('A' ≤ c ∧ c ≤ 'Z') ||
      decide ('a' ≤ c) && decide (c ≤ 'z') || decide ('0' ≤ c) && decide (c ≤ '9')) := rfl
  rw [hisSome, hranges]
  simp only [Bool.or_eq_true, Bool.and_eq_true, decide_eq_true_eq]
  grind

theorem isSome_hexValue?_iff (c : Char) : (hexValue? c).isSome ↔ c ∈ hexDigits := by
  constructor
  · intro h
    have hrange : ('0' ≤ c ∧ c ≤ '9') ∨ ('a' ≤ c ∧ c ≤ 'f') ∨ ('A' ≤ c ∧ c ≤ 'F') := by
      unfold hexValue? at h
      grind
    have hlt : c.toNat < 128 := by
      obtain ⟨-, hle⟩ | ⟨-, hle⟩ | ⟨-, hle⟩ := hrange <;> exact lt_of_le_ascii hle (by decide)
    exact forall_ascii (p := fun c => (hexValue? c).isSome → c ∈ hexDigits) (by decide) hlt h
  · have hall : (hexDigits.all fun c => (hexValue? c).isSome) = true := by decide
    exact List.all_eq_true.1 hall c

theorem toLower_of_le {c : Char} (h : 128 ≤ c.toNat) : c.toLower = c := by
  unfold Char.toLower
  rw [dif_neg fun hrange => Nat.not_lt.2 h (lt_of_le_ascii hrange.2 (by decide))]

/-- What is the same for ASCII characters of either case is the same for all characters. -/
theorem toLower_congr {α : Type} {f : Char → α}
    (h : ∀ n < 128, f (Char.ofNat n).toLower = f (Char.ofNat n)) (c : Char) :
    f c.toLower = f c := by
  rcases Nat.lt_or_ge c.toNat 128 with hlt | hge
  · exact forall_ascii (p := fun c => f c.toLower = f c) h hlt
  · rw [toLower_of_le hge]

/-- Hexadecimal digits have their values in either case. -/
theorem hexValue?_toLower (c : Char) : hexValue? c.toLower = hexValue? c :=
  toLower_congr (f := hexValue?) (by decide) c

theorem isBlank_toLower (c : Char) : isBlank c.toLower = isBlank c :=
  toLower_congr (f := isBlank) (by decide) c

namespace Collector

variable {collector : Collector} {c : Char} {chars : List Char}

/-! ## Collecting digits -/

/-- How many digits of the next octet have been taken. -/
def pending (collector : Collector) : Nat :=
  if collector.nibble.isSome then 1 else 0

/-- A digit is taken. -/
theorem feed_digit (hblank : isBlank c = false) (hdigit : collector.alphabet.IsDigit c)
    (hpending : collector.pending < collector.alphabet.width) :
    ∃ next, collector.feed c = .ok next ∧ next.alphabet = collector.alphabet ∧
      next.pending = (collector.pending + 1) % collector.alphabet.width := by
  obtain ⟨alphabet, buffer, used, nibble⟩ := collector
  cases alphabet with
  | base62 =>
    obtain ⟨value, hvalue⟩ := Option.isSome_iff_exists.1 ((isSome_base62Value?_iff c).2 hdigit)
    refine ⟨append value ⟨.base62, buffer, used, nibble⟩, by simp [feed, hblank, hvalue], rfl, ?_⟩
    simp_all [append, pending, Alphabet.width]
  | hex =>
    obtain ⟨value, hvalue⟩ := Option.isSome_iff_exists.1 ((isSome_hexValue?_iff c).2 hdigit)
    cases nibble with
    | none =>
      exact ⟨⟨.hex, buffer, used, some value⟩, by simp [feed, hblank, hvalue], rfl, rfl⟩
    | some high =>
      exact ⟨{ append (high * 16 + value) ⟨.hex, buffer, used, some high⟩ with nibble := none },
        by simp [feed, hblank, hvalue], rfl, by simp [pending, Alphabet.width]⟩

/-- Every other character spoils the segment. -/
theorem feed_spoilt (hblank : isBlank c = false) (hdigit : ¬ collector.alphabet.IsDigit c) :
    collector.feed c = .error .badDataCharacter := by
  obtain ⟨alphabet, buffer, used, nibble⟩ := collector
  cases alphabet with
  | base62 =>
    have hvalue := Option.not_isSome_iff_eq_none.1 (mt (isSome_base62Value?_iff c).1 hdigit)
    simp [feed, hblank, hvalue]
  | hex =>
    have hvalue := Option.not_isSome_iff_eq_none.1 (mt (isSome_hexValue?_iff c).1 hdigit)
    cases nibble <;> simp [feed, hblank, hvalue]

/-- Digits are taken, with blanks in between. -/
theorem feedAll_of_digits (hdigits : ∀ c ∈ visible chars, collector.alphabet.IsDigit c)
    (hpending : collector.pending < collector.alphabet.width) :
    ∃ next, collector.feedAll chars = .ok next ∧ next.alphabet = collector.alphabet ∧
      next.pending = (collector.pending + (visible chars).length) % collector.alphabet.width := by
  induction chars generalizing collector with
  | nil => exact ⟨collector, rfl, rfl, (Nat.mod_eq_of_lt hpending).symm⟩
  | cons c chars ih =>
    rw [feedAll_cons]
    cases hblank : isBlank c with
    | true =>
      rw [feed_of_isBlank hblank, visible_cons hblank]
      exact ih (visible_cons hblank ▸ hdigits) hpending
    | false =>
      rw [visible_cons_of_not hblank] at hdigits ⊢
      obtain ⟨hdigit, hrest⟩ := List.forall_mem_cons.1 hdigits
      obtain ⟨middle, hmiddle, halphabet, hwidth⟩ := feed_digit hblank hdigit hpending
      have hlt : middle.pending < middle.alphabet.width := by
        rw [hwidth, halphabet]
        exact Nat.mod_lt _ (Nat.zero_lt_of_lt hpending)
      rw [← halphabet] at hrest
      obtain ⟨next, hnext, halphabet', hwidth'⟩ := ih hrest hlt
      rw [hmiddle]
      refine ⟨next, hnext, halphabet'.trans halphabet, ?_⟩
      rw [hwidth', hwidth, halphabet, Nat.mod_add_mod, List.length_cons, Nat.add_assoc,
        Nat.add_comm 1]

/-- The segment may end behind a whole octet. -/
theorem exists_finish_iff :
    (∃ octets, collector.finish = .ok octets) ↔ collector.pending = 0 := by
  cases hnibble : collector.nibble <;> simp [finish, pending, hnibble]

/-! ## The case of digits -/

theorem feed_toLower (h : collector.alphabet = .hex) :
    collector.feed c.toLower = collector.feed c := by
  simp only [feed, isBlank_toLower, h, hexValue?_toLower]

theorem alphabet_of_feed {next : Collector} (h : collector.feed c = .ok next) :
    next.alphabet = collector.alphabet := by
  unfold feed append at h
  grind

/-- The case of hexadecimal digits is of no account. -/
theorem feedAll_toLower (h : collector.alphabet = .hex) :
    collector.feedAll (chars.map Char.toLower) = collector.feedAll chars := by
  induction chars generalizing collector with
  | nil => rfl
  | cons c chars ih =>
    rw [List.map_cons, feedAll_cons, feedAll_cons, feed_toLower h]
    cases hfeed : collector.feed c with
    | error cause => rfl
    | ok next => exact ih ((alphabet_of_feed hfeed).trans h)

end Collector

/-- A character that is neither a blank nor a digit spoils a segment, whatever follows. -/
structure SpoiltAt (alphabet : Alphabet) (good : List Char) (c : Char) : Prop where
  good : ∀ digit ∈ visible good, alphabet.IsDigit digit
  isBlank_eq : isBlank c = false
  not_isDigit : ¬ alphabet.IsDigit c

/-- If not all characters are blanks and digits, there is a first one that spoils the segment. -/
theorem exists_spoiltAt {alphabet : Alphabet} {chars : List Char}
    (h : ¬ ∀ c ∈ visible chars, alphabet.IsDigit c) :
    ∃ good c more, chars = good ++ c :: more ∧ SpoiltAt alphabet good c := by
  induction chars with
  | nil => exact absurd (fun c hc => absurd hc List.not_mem_nil) h
  | cons c chars ih =>
    cases hblank : isBlank c with
    | true =>
      rw [visible_cons hblank] at h
      obtain ⟨good, spoiling, more, rfl, hspoilt⟩ := ih h
      exact ⟨c :: good, spoiling, more, rfl, (visible_cons hblank).symm ▸ hspoilt.good,
        hspoilt.isBlank_eq, hspoilt.not_isDigit⟩
    | false =>
      by_cases hdigit : alphabet.IsDigit c
      · rw [visible_cons_of_not hblank, List.forall_mem_cons, not_and] at h
        obtain ⟨good, spoiling, more, rfl, hspoilt⟩ := ih (h hdigit)
        refine ⟨c :: good, spoiling, more, rfl, ?_, hspoilt.isBlank_eq, hspoilt.not_isDigit⟩
        rw [visible_cons_of_not hblank]
        exact List.forall_mem_cons.2 ⟨hdigit, hspoilt.good⟩
      · exact ⟨[], c, chars, rfl, fun _ hc => absurd hc List.not_mem_nil, hblank, hdigit⟩

variable {alphabet : Alphabet} {chars good more : List Char} {c : Char}

/-- Digits are taken from the start of a segment. -/
theorem exists_feedAll (h : ∀ c ∈ visible chars, alphabet.IsDigit c) :
    ∃ next : Collector, Collector.feedAll chars { alphabet } = .ok next ∧
      next.alphabet = alphabet ∧ next.pending = (visible chars).length % alphabet.width := by
  have hstart : Collector.pending { alphabet } = 0 := rfl
  have hlt : Collector.pending { alphabet } < alphabet.width := by cases alphabet <;> decide
  obtain ⟨next, hnext, halphabet, hpending⟩ := Collector.feedAll_of_digits h hlt
  rw [hstart, Nat.zero_add] at hpending
  exact ⟨next, hnext, halphabet, hpending⟩

theorem SpoiltAt.exists_feedAll (h : SpoiltAt alphabet good c) :
    ∃ next : Collector, Collector.feedAll good { alphabet } = .ok next ∧
      next.feed c = .error .badDataCharacter := by
  obtain ⟨next, hnext, halphabet, -⟩ := Segment.exists_feedAll h.good
  exact ⟨next, hnext, Collector.feed_spoilt h.isBlank_eq (halphabet ▸ h.not_isDigit)⟩

/-! ## Decoding -/

theorem SpoiltAt.decode_eq (h : SpoiltAt alphabet good c) (more : List Char) :
    decode alphabet (String.ofList (good ++ c :: more)) = .error .badDataCharacter := by
  obtain ⟨next, hnext, hfeed⟩ := h.exists_feedAll
  rw [Segment.decode_eq, Collector.decodeRest, Collector.feedAll_append, hnext]
  simp [Collector.feedAll_cons, hfeed, bind, Except.bind]

/-- Characters can be decoded if and only if those that are no blanks are digits, and make whole
octets. -/
theorem exists_decode_iff :
    (∃ octets, decode alphabet (String.ofList chars) = .ok octets) ↔
      (∀ c ∈ visible chars, alphabet.IsDigit c) ∧ (visible chars).length % alphabet.width = 0 := by
  by_cases hdigits : ∀ c ∈ visible chars, alphabet.IsDigit c
  · obtain ⟨next, hnext, -, hpending⟩ := exists_feedAll hdigits
    rw [decode_eq, Collector.decodeRest, hnext, ← hpending, ← Collector.exists_finish_iff]
    exact (and_iff_right hdigits).symm
  · obtain ⟨good, c, more, rfl, hspoilt⟩ := exists_spoiltAt hdigits
    rw [hspoilt.decode_eq more]
    exact iff_of_false (by simp) fun h => hdigits h.1

/-- Octets that are spelled by characters are decoded. -/
theorem decode_of_spells {octets : Octets} (h : Spells alphabet octets chars) :
    decode alphabet (String.ofList chars) = .ok octets := by
  obtain ⟨after, hafter, hfinish⟩ := feedAll_of_spells h
  rw [decode_eq, Collector.decodeRest, hafter]
  exact hfinish

/-- Two digits for each octet, of either case, are decoded. -/
theorem decode_hex_of_toLower {octets : Octets}
    (h : (visible chars).map Char.toLower = octets.flatMap Alphabet.hex.digits) :
    decode .hex (String.ofList chars) = .ok octets := by
  have hspells : Spells .hex octets (octets.flatMap Alphabet.hex.digits) :=
    spells_digits fun octet _ => trivial
  rw [decode_eq, ← Collector.decodeRest_visible, Collector.decodeRest,
    ← Collector.feedAll_toLower rfl, h, ← Collector.decodeRest, ← decode_eq,
    decode_of_spells hspells]

/-- Different octets are spelled differently. -/
theorem flatMap_digits_inj {octets others : Octets} (h : ∀ octet ∈ octets, alphabet.Has octet)
    (hothers : ∀ octet ∈ others, alphabet.Has octet)
    (heq : octets.flatMap alphabet.digits = others.flatMap alphabet.digits) : octets = others := by
  have hdecode := decode_of_spells (spells_digits h)
  rw [heq, decode_of_spells (spells_digits hothers)] at hdecode
  exact (Except.ok.inj hdecode).symm

end Segment

namespace Lexer

open Segment

variable {alphabet : Alphabet} {digits : List Char} {lexer : Lexer} {rest : List Reading}

/-! ## Reading from a source -/

/-- The lexer with the given readings to come, behind the newlines of the characters. -/
def skipOver (chars : List Char) (rest : List Reading) (lexer : Lexer) : Lexer :=
  { lexer.skipTo rest with line := lexer.line + chars.count '\n' }

variable {collector next : Collector}

/-- Where a segment is collected, only the readings to come matter. -/
theorem collectInto_skipTo (collector : Collector) (rest ahead : List Reading) (lexer : Lexer) :
    collectInto collector rest (lexer.skipTo ahead) = collectInto collector rest lexer := by
  cases rest with
  | nil => rfl
  | cons reading rest => cases reading <;> rfl

/-- A character that is taken is read. -/
theorem collectInto_cons {c : Char} (hclose : c ≠ '\x7d') (hfeed : collector.feed c = .ok next)
    (rest : List Reading) (lexer : Lexer) :
    collectInto collector (some c :: rest) lexer =
      collectInto next rest (lexer.skipOver [c] rest) := by
  simp only [collectInto, if_neg hclose, hfeed]
  split
  · next hnewline =>
    subst hnewline
    rfl
  · next hnewline =>
    rw [skipOver, List.count_singleton, if_neg (by simpa using hnewline)]
    rfl

/-- What has been taken of a segment is read. -/
theorem collectInto_append (hclose : '\x7d' ∉ digits) (hfeed : collector.feedAll digits = .ok next)
    (rest : List Reading) (lexer : Lexer) :
    collectInto collector (digits.map some ++ rest) lexer =
      collectInto next rest (lexer.skipOver digits rest) := by
  induction digits generalizing collector lexer with
  | nil =>
    cases hfeed
    exact (collectInto_skipTo next rest rest lexer).symm
  | cons c digits ih =>
    rw [List.mem_cons, not_or] at hclose
    rw [Collector.feedAll_cons] at hfeed
    cases hc : collector.feed c with
    | error cause => simp [hc, bind, Except.bind] at hfeed
    | ok middle =>
      rw [hc] at hfeed
      rw [List.map_cons, List.cons_append, collectInto_cons (Ne.symm hclose.1) hc,
        ih hclose.2 hfeed]
      simp only [skipOver, skipTo, Source.skipTo, Nat.add_assoc, ← List.count_append,
        List.singleton_append]

/-- A character that spoils a segment is the last one that is read. -/
theorem collect_spoilt {c : Char} (h : SpoiltAt alphabet digits c) (hclose : '\x7d' ∉ digits)
    (hc : c ≠ '\x7d') (hahead : lexer.source.ahead = digits.map some ++ some c :: rest) :
    collect alphabet lexer = .error ⟨.badDataCharacter, none⟩ (lexer.skipOver digits rest) := by
  obtain ⟨next, hnext, hfeed⟩ := h.exists_feedAll
  have hnewline : c ≠ '\n' := by
    rintro rfl
    cases h.isBlank_eq
  rw [collect, hahead, collectInto_append hclose hnext]
  simp only [collectInto, if_neg hc, if_neg hnewline, hfeed]
  rfl

/-- A segment that is closed gives what its characters give, and is read with its delimiter. -/
theorem collect_closed (hclose : '\x7d' ∉ digits)
    (hahead : lexer.source.ahead = digits.map some ++ some '\x7d' :: rest) :
    (∀ octets, decode alphabet (String.ofList digits) = .ok octets →
      collect alphabet lexer = .ok octets (lexer.skipOver digits rest)) ∧
    (∀ cause, decode alphabet (String.ofList digits) = .error cause →
      ∃ after, collect alphabet lexer = .error ⟨cause, none⟩ after) := by
  by_cases hdigits : ∀ c ∈ visible digits, alphabet.IsDigit c
  · obtain ⟨next, hnext, -⟩ := exists_feedAll hdigits
    rw [collect, hahead, collectInto_append hclose hnext, Segment.decode_eq, Collector.decodeRest,
      hnext]
    simp only [collectInto, if_true, bind, Except.bind]
    constructor
    · intro octets hfinish
      rw [hfinish]
      rfl
    · intro cause hfinish
      rw [hfinish]
      exact ⟨_, rfl⟩
  · obtain ⟨good, c, more, rfl, hspoilt⟩ := exists_spoiltAt hdigits
    rw [hspoilt.decode_eq]
    rw [List.mem_append, List.mem_cons, not_or, not_or] at hclose
    rw [List.map_append, List.map_cons, List.append_assoc, List.cons_append] at hahead
    refine ⟨by simp, ?_⟩
    rintro _ ⟨⟩
    exact ⟨_, collect_spoilt hspoilt hclose.1 (Ne.symm hclose.2.1) hahead⟩

/-- If the source ends in a segment, the end is found where all characters could be taken. -/
theorem collect_open (hclose : '\x7d' ∉ digits) (hdigits : ∀ c ∈ visible digits, alphabet.IsDigit c)
    (hahead : lexer.source.ahead = digits.map some) (hfault : lexer.source.fault = none) :
    collect alphabet lexer = .error ⟨.endInData, some (.at (lexer.line + digits.count '\n'))⟩
      (lexer.skipOver digits []) := by
  obtain ⟨next, hnext, -⟩ := exists_feedAll hdigits
  have happend := collectInto_append hclose hnext [] lexer
  rw [List.append_nil] at happend
  have hsame : ((lexer.skipOver digits []).skipTo []).source.fault = none := hfault
  rw [collect, hahead, happend]
  simp only [collectInto, finish, hsame]
  rfl

/-- A data segment is read exactly. Closed, it gives what its characters give when decoded; what
follows the delimiter is left, and the newlines are counted. Otherwise the end of the source is
found, or the character that spoils the segment is the last one read. Two hexadecimal digits make an
octet, and one letter or digit in the other alphabet; blanks anywhere and the case of hexadecimal
digits are of no account. -/
theorem collect_exact (alphabet : Alphabet) (lexer : Lexer) (digits : List Char) :
    ('\x7d' ∉ digits →
      (∀ rest, lexer.source.ahead = digits.map some ++ some '\x7d' :: rest →
        (∀ octets, decode alphabet (String.ofList digits) = .ok octets →
          collect alphabet lexer = .ok octets (lexer.skipOver digits rest)) ∧
        (∀ cause, decode alphabet (String.ofList digits) = .error cause →
          ∃ after, collect alphabet lexer = .error ⟨cause, none⟩ after)) ∧
      (lexer.source.ahead = digits.map some → lexer.source.fault = none →
        (∀ c ∈ visible digits, alphabet.IsDigit c) →
        collect alphabet lexer =
          .error ⟨.endInData, some (.at (lexer.line + digits.count '\n'))⟩
            (lexer.skipOver digits [])) ∧
      (∀ c rest, lexer.source.ahead = digits.map some ++ some c :: rest →
        SpoiltAt alphabet digits c → c ≠ '\x7d' →
        collect alphabet lexer =
          .error ⟨.badDataCharacter, none⟩ (lexer.skipOver digits rest))) ∧
    ((∃ octets, decode .hex (String.ofList digits) = .ok octets) ↔
      (∀ c ∈ visible digits, c ∈ hexDigits) ∧ (visible digits).length % 2 = 0) ∧
    ((∃ octets, decode .base62 (String.ofList digits) = .ok octets) ↔
      ∀ c ∈ visible digits, c.isAlphanum = true) ∧
    (∀ octets : Octets,
      (visible digits).map Char.toLower = octets.flatMap Alphabet.hex.digits →
      decode .hex (String.ofList digits) = .ok octets) ∧
    (∀ octets : Octets, (∀ octet ∈ octets, octet.toNat < 62) →
      visible digits = octets.flatMap Alphabet.base62.digits →
      decode .base62 (String.ofList digits) = .ok octets) ∧
    (∀ octets others : Octets, (∀ octet ∈ octets, octet.toNat < 62) →
      (∀ octet ∈ others, octet.toNat < 62) →
      octets.flatMap Alphabet.base62.digits = others.flatMap Alphabet.base62.digits →
      octets = others) := by
  refine ⟨fun hclose => ⟨fun rest => collect_closed hclose, ?_, ?_⟩, exists_decode_iff, ?_, ?_, ?_,
    ?_⟩
  · exact fun hahead hfault hdigits => collect_open hclose hdigits hahead hfault
  · exact fun c rest hahead hspoilt hc => collect_spoilt hspoilt hclose hc hahead
  · rw [exists_decode_iff]
    exact and_iff_left (Nat.mod_one _)
  · exact fun octets => decode_hex_of_toLower
  · exact fun octets h heq => decode_of_spells ⟨h, heq⟩
  · intro octets others h
    exact flatMap_digits_inj (show ∀ octet ∈ octets, Alphabet.base62.Has octet from h)

/-- A segment with a word behind it is read as far as its delimiter. -/
theorem collect_exact_rest :
    let lexer := ofSource (.ofChars "01 2\n3\x7d rest".toList)
    collect .base62 lexer =
      .ok [0, 1, 2, 3] (lexer.skipOver "01 2\n3".toList (" rest".toList.map some)) := by
  intro lexer
  have hread := ((collect_exact .base62 lexer "01 2\n3".toList).1 (by decide)).1
    (" rest".toList.map some) rfl
  have hhas : ∀ octet ∈ ([0, 1, 2, 3] : Octets), octet.toNat < 62 := by simp
  exact hread.1 [0, 1, 2, 3] (decode_of_spells ⟨hhas, by decide⟩)

end Lexer

end ScriptedPng
