import ScriptedPng.Proofs.Spelling
import ScriptedPng.Segment.Reading

/-!
# Data segments from their spelling

A data segment that spells octets in an alphabet, with blanks in between as it likes, gives these
octets.

## Main definitions

* `Segment.letters`, `Alphabet.digits` — the characters that spell an octet.
* `Segment.Spells` — characters spell octets.

## Main statements

* `Segment.feedAll_of_spells` — what is collected from such characters are the octets.
* `Lexer.succeeds_collect` — the octets are read from the source.
-/

namespace ScriptedPng

namespace Segment

open Diagnostic

/-! ## Spelling octets -/

/-- So many characters from the given one on. -/
def run (first : Char) (n : Nat) : List Char :=
  (List.range n).map fun i => Char.ofNat (first.toNat + i)

/-- The digits, the small letters and the capitals. -/
def letters : List Char := run '0' 10 ++ run 'a' 26 ++ run 'A' 26

/-- The characters that spell an octet: one of the letters, or two of the first sixteen. -/
def Alphabet.digits : Alphabet → UInt8 → List Char
  | base62, octet => letters[octet.toNat]?.toList
  | hex, octet => letters[octet.toNat / 16]?.toList ++ letters[octet.toNat % 16]?.toList

/-- The octet can be spelled. -/
def Alphabet.Has : Alphabet → UInt8 → Prop
  | base62, octet => octet.toNat < 62
  | hex, _ => True

/-- The characters spell the octets, apart from blanks. -/
structure Spells (alphabet : Alphabet) (octets : Octets) (chars : List Char) : Prop where
  has : ∀ octet ∈ octets, alphabet.Has octet
  digits : chars.filter (fun c => !Text.isBlank c) = octets.flatMap alphabet.digits

/-- A small number has a letter, which is no delimiter and has the number as its value. -/
theorem exists_letter {n : Nat} (h : n < 62) : ∃ c, letters[n]? = some c ∧
    Text.isBlank c = false ∧ c ≠ '\x7d' ∧ base62Value? c = some n ∧
    (n < 16 → hexValue? c = some n) := by
  have hall : ∀ n < 62, letters[n]?.any fun c => !Text.isBlank c && c != '\x7d' &&
      base62Value? c == some n && (decide (16 ≤ n) || hexValue? c == some n) := by
    decide
  have htests := hall n h
  cases hc : letters[n]? with
  | none =>
    rw [hc] at htests
    cases htests
  | some c =>
    simp only [hc, Option.any_some, Bool.and_eq_true, Bool.not_eq_true', bne_iff_ne, beq_iff_eq,
      Bool.or_eq_true, decide_eq_true_eq] at htests
    obtain ⟨⟨⟨hblank, hclose⟩, hvalue⟩, hhex⟩ := htests
    exact ⟨c, rfl, hblank, hclose, hvalue, fun hlt => hhex.resolve_left (by omega)⟩

/-- Characters that spell an octet are neither blanks nor delimiters. -/
theorem Alphabet.of_mem_digits {alphabet : Alphabet} {octet : UInt8} {c : Char}
    (hhas : alphabet.Has octet) (h : c ∈ alphabet.digits octet) :
    Text.isBlank c = false ∧ c ≠ '\x7d' := by
  have hlt := octet.toNat_lt
  have hletter {n : Nat} (hn : n < 62) (hmem : c ∈ letters[n]?.toList) :
      Text.isBlank c = false ∧ c ≠ '\x7d' := by
    obtain ⟨found, hfound, hblank, hclose, -⟩ := exists_letter hn
    rw [hfound] at hmem
    obtain rfl := List.mem_singleton.1 hmem
    exact ⟨hblank, hclose⟩
  cases alphabet with
  | base62 => exact hletter hhas h
  | hex =>
    rcases List.mem_append.1 h with h | h
    · exact hletter (by omega) h
    · exact hletter (by omega) h

/-- Octets are spelled by their digits. -/
theorem spells_digits {alphabet : Alphabet} {octets : Octets}
    (h : ∀ octet ∈ octets, alphabet.Has octet) :
    Spells alphabet octets (octets.flatMap alphabet.digits) := by
  refine ⟨h, List.filter_eq_self.2 fun c hmem => ?_⟩
  obtain ⟨octet, hoctet, hdigit⟩ := List.mem_flatMap.1 hmem
  simp [(Alphabet.of_mem_digits (h octet hoctet) hdigit).1]

/-- The delimiter is not among the characters that spell octets. -/
theorem Spells.close_not_mem {alphabet : Alphabet} {octets : Octets} {chars : List Char}
    (h : Spells alphabet octets chars) : '\x7d' ∉ chars := by
  intro hmem
  have hfilter : '\x7d' ∈ chars.filter (fun c => !Text.isBlank c) :=
    List.mem_filter.2 ⟨hmem, rfl⟩
  rw [h.digits] at hfilter
  obtain ⟨octet, hoctet, hdigit⟩ := List.mem_flatMap.1 hfilter
  exact (Alphabet.of_mem_digits (h.has octet hoctet) hdigit).2 rfl

/-! ## Collecting octets -/

namespace Collector

/-- The octets have been collected, and no digit is pending. -/
structure Holds (alphabet : Alphabet) (octets : Octets) (collector : Collector) : Prop where
  alphabet_eq : collector.alphabet = alphabet
  octets_eq : collector.octets = octets
  nibble_eq : collector.nibble = none
  used_le : collector.used ≤ collector.buffer.size

theorem holds_start (alphabet : Alphabet) : Holds alphabet [] { alphabet } :=
  ⟨rfl, by simp [Collector.octets], rfl, Nat.zero_le _⟩

/-- Takes one character after the other. -/
def feedAll (chars : List Char) (collector : Collector) : Except Cause Collector :=
  chars.foldlM (fun collector c => collector.feed c) collector

variable {alphabet : Alphabet} {octets : Octets} {collector : Collector}

/-- There is room in the buffer for one more octet behind those completed. -/
theorem octets_append (value : Nat) (h : collector.used ≤ collector.buffer.size) :
    (collector.append value).octets = collector.octets ++ [UInt8.ofNat value] ∧
      (collector.append value).used ≤ (collector.append value).buffer.size := by
  obtain ⟨alphabet, buffer, used, nibble⟩ := collector
  simp only [append, Collector.octets] at h ⊢
  have hroom : ∃ room, used < (buffer ++ room).size ∧
      (if used = buffer.size then buffer ++ Array.replicate quantum 0 else buffer) =
        buffer ++ room := by
    split
    next heq => exact ⟨_, by simp [heq, quantum], rfl⟩
    next hne => exact ⟨#[], by simp; omega, by simp⟩
  obtain ⟨room, hroom, heq⟩ := hroom
  refine ⟨?_, by rw [heq, Array.size_setIfInBounds]; exact hroom⟩
  simp only [heq, Array.toList_extract, Array.toList_setIfInBounds, List.extract_eq_take_drop,
    List.drop_zero, Nat.sub_zero]
  rw [List.take_add_one, List.take_set_of_le (Nat.le_refl _),
    List.getElem?_set_self (by simpa using hroom), Array.toList_append,
    List.take_append_of_le_length h]
  rfl

theorem Holds.append (h : Holds alphabet octets collector) (octet : UInt8) :
    Holds alphabet (octets ++ [octet]) (collector.append octet.toNat) := by
  obtain ⟨hoctets, hused⟩ := octets_append octet.toNat h.used_le
  refine ⟨h.alphabet_eq, ?_, h.nibble_eq, hused⟩
  rw [hoctets, h.octets_eq, UInt8.ofNat_toNat]

/-- The digits of an octet complete it. -/
theorem feedAll_digits (h : Holds alphabet octets collector) {octet : UInt8}
    (hhas : alphabet.Has octet) :
    ∃ after, collector.feedAll (alphabet.digits octet) = .ok after ∧
      Holds alphabet (octets ++ [octet]) after := by
  have happend := h.append octet
  cases alphabet with
  | base62 =>
    obtain ⟨c, hc, hblank, -, hvalue, -⟩ := exists_letter hhas
    refine ⟨_, ?_, happend⟩
    simp [feedAll, Alphabet.digits, hc, feed, hblank, h.alphabet_eq, hvalue]
  | hex =>
    have hlt := octet.toNat_lt
    obtain ⟨high, hhigh, hblank, -, -, hvalue⟩ :=
      exists_letter (n := octet.toNat / 16) (by omega)
    obtain ⟨low, hlow, hblank', -, -, hvalue'⟩ :=
      exists_letter (n := octet.toNat % 16) (by omega)
    have hoctet : octet.toNat / 16 * 16 + octet.toNat % 16 = octet.toNat := by omega
    refine ⟨{ collector.append octet.toNat with nibble := none }, ?_, ?_⟩
    · obtain ⟨kind, buffer, used, nibble⟩ := collector
      obtain rfl : kind = .hex := h.alphabet_eq
      obtain rfl : nibble = none := h.nibble_eq
      simp [feedAll, Alphabet.digits, hhigh, hlow, feed, hblank, hblank', hvalue (by omega),
        hvalue' (by omega), hoctet, bind, Except.bind]
      rfl
    · exact ⟨happend.alphabet_eq, happend.octets_eq, rfl, happend.used_le⟩

theorem feedAll_append (chars others : List Char) :
    collector.feedAll (chars ++ others) =
      (do let after ← collector.feedAll chars; after.feedAll others) :=
  List.foldlM_append

theorem feedAll_octets (h : Holds alphabet octets collector) {more : Octets}
    (hhas : ∀ octet ∈ more, alphabet.Has octet) :
    ∃ after, collector.feedAll (more.flatMap alphabet.digits) = .ok after ∧
      Holds alphabet (octets ++ more) after := by
  induction more generalizing octets collector with
  | nil => exact ⟨collector, rfl, by simpa using h⟩
  | cons octet more ih =>
    obtain ⟨middle, hmiddle, hholds⟩ := feedAll_digits h (hhas octet List.mem_cons_self)
    obtain ⟨after, hafter, hall⟩ := ih hholds fun octet hmem =>
      hhas octet (List.mem_cons_of_mem _ hmem)
    refine ⟨after, ?_, by simpa using hall⟩
    rw [List.flatMap_cons, feedAll_append, hmiddle]
    exact hafter

theorem feedAll_cons (c : Char) (chars : List Char) :
    collector.feedAll (c :: chars) = (do let after ← collector.feed c; after.feedAll chars) :=
  List.foldlM_cons

theorem feed_of_isBlank {c : Char} (h : Text.isBlank c = true) :
    collector.feed c = .ok collector := by
  simp [feed, h]

/-- Blanks are of no account. -/
theorem feedAll_filter (chars : List Char) :
    collector.feedAll (chars.filter fun c => !Text.isBlank c) = collector.feedAll chars := by
  induction chars generalizing collector with
  | nil => rfl
  | cons c chars ih =>
    cases hblank : Text.isBlank c with
    | true =>
      rw [List.filter_cons_of_neg (by simp [hblank]), feedAll_cons, feed_of_isBlank hblank, ih]
      rfl
    | false =>
      rw [List.filter_cons_of_pos (by simp [hblank]), feedAll_cons, feedAll_cons]
      congr 1
      funext after
      exact ih

end Collector

/-- What is collected from characters that spell octets are these octets. -/
theorem feedAll_of_spells {alphabet : Alphabet} {octets : Octets} {chars : List Char}
    (h : Spells alphabet octets chars) :
    ∃ after : Collector, Collector.feedAll chars { alphabet } = .ok after ∧
      after.finish = .ok octets := by
  rw [← Collector.feedAll_filter, h.digits]
  obtain ⟨after, hafter, hholds⟩ := Collector.feedAll_octets (Collector.holds_start alphabet) h.has
  refine ⟨after, hafter, ?_⟩
  simp [Collector.finish, hholds.nibble_eq, hholds.octets_eq]

end Segment

namespace Lexer

open Segment

/-- Characters are collected up to the delimiter. -/
theorem succeeds_collectInto {chars rest : List Char} {collector after : Collector}
    {octets : Octets} (hclose : '\x7d' ∉ chars)
    (hfeed : collector.feedAll chars = .ok after)
    (hfinish : after.finish = .ok octets) {lexer : Lexer} (hfault : lexer.source.fault = none)
    (hpushed : lexer.pushed = false) :
    Succeeds (fun found lexer => found = octets ∧ Ahead rest lexer)
      (collectInto collector ((chars ++ '\x7d' :: rest).map some) lexer) := by
  induction chars generalizing collector lexer with
  | nil =>
    cases hfeed
    simp only [List.nil_append, List.map_cons, collectInto, if_true, hfinish]
    exact ⟨rfl, rfl, hfault, hpushed⟩
  | cons c chars ih =>
    rw [List.mem_cons, not_or] at hclose
    rw [Collector.feedAll_cons] at hfeed
    cases hc : collector.feed c with
    | error cause => simp [hc, bind, Except.bind] at hfeed
    | ok next =>
      simp only [List.cons_append, List.map_cons, collectInto, if_neg (Ne.symm hclose.1), hc]
      rw [hc] at hfeed
      refine ih hclose.2 hfeed ?_ ?_
      · split <;> exact hfault
      · split <;> exact hpushed

/-- The octets that characters spell are read, up to the delimiter. -/
theorem succeeds_collect {alphabet : Alphabet} {octets : Octets} {chars rest : List Char}
    (h : Segment.Spells alphabet octets chars) {lexer : Lexer}
    (hahead : Ahead (chars ++ '\x7d' :: rest) lexer) :
    Succeeds (fun found after => found = octets ∧ Ahead rest after) (collect alphabet lexer) := by
  obtain ⟨after, hfeed, hfinish⟩ := feedAll_of_spells h
  rw [collect, hahead.ahead]
  exact succeeds_collectInto h.close_not_mem hfeed hfinish hahead.fault hahead.pushed

end Lexer

end ScriptedPng
