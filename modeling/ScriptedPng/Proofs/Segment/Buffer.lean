import ScriptedPng.Proofs.Segment.Decoding

/-!
# The buffer of a collector

A collector is fed with characters, of which some may be refused, and asked for its octets at any
time. After any calls its buffer starts with the octets that the digits among the characters make,
and has just the room that is needed for them, rounded up to whole quanta.

A call changes a collector field by field. Two things could go wrong on the way besides a character
that is refused: an octet could be stored beyond the buffer, or what is stored could be no octet.
Neither ever happens.

## Main definitions

* `Alphabet.value?`, `Alphabet.octets` — the value of a digit, and the octets that digits make.
* `Collector.take`, `Collector.conclude` — calls that change a collector field by field.
* `Collector.afterCalls` — a collector after calls.
* `Collector.Represents` — a collector holds what digits make.

## Main statements

* `Collector.take_eq`, `Collector.conclude_eq` — the calls do what `feed` and `finish` say.
* `Collector.Represents.feed` — what one character does to a collector.
* `Collector.buffer_exact` — what a collector is after any calls.
-/

namespace ScriptedPng.Segment

open Diagnostic

/-! ## Octets from digits -/

namespace Alphabet

/-- The number of values that a digit can have. -/
def radix : Alphabet → Nat
  | base62 => 62
  | hex => 16

/-- The value of a digit is its place among the letters. -/
def value? : Alphabet → Char → Option Nat
  | base62, c => letters.idxOf? c
  | hex, c => (letters.take 16).idxOf? c.toLower

/-- The octets that digits make: one for each, or one for every two. -/
def octets : Alphabet → List Nat → Octets
  | base62, digits => digits.map UInt8.ofNat
  | hex, high :: low :: rest => UInt8.ofNat (high * 16 + low) :: octets hex rest
  | hex, _ => []

variable {alphabet : Alphabet} {c : Char} {d : Nat} {digits : List Nat}

theorem value?_lt (h : alphabet.value? c = some d) : d < alphabet.radix := by
  cases alphabet with
  | base62 => exact (List.idxOf?_eq_some_iff.1 h).1
  | hex => exact (List.idxOf?_eq_some_iff.1 h).1

theorem isBlank_of_mem_letters (h : c ∈ letters) : Text.isBlank c = false := by
  have hall : letters.all (! Text.isBlank ·) = true := by decide
  simpa using List.all_eq_true.1 hall c h

theorem lt_of_mem_letters (h : c ∈ letters) : c.toNat < 128 := by
  have hall : letters.all (decide <| ·.toNat < 128) = true := by decide
  exact of_decide_eq_true (List.all_eq_true.1 hall c h)

theorem lt_of_mem_hexDigits (h : c ∈ hexDigits) : c.toNat < 128 := by
  have hall : hexDigits.all (decide <| ·.toNat < 128) = true := by decide
  exact of_decide_eq_true (List.all_eq_true.1 hall c h)

/-- Blanks are no digits. -/
theorem value?_of_isBlank (h : Text.isBlank c = true) : alphabet.value? c = none := by
  cases alphabet with
  | base62 =>
    refine List.idxOf?_eq_none_iff.2 fun hmem => ?_
    rw [isBlank_of_mem_letters hmem] at h
    cases h
  | hex =>
    refine List.idxOf?_eq_none_iff.2 fun hmem => ?_
    rw [← isBlank_toLower, isBlank_of_mem_letters (List.mem_of_mem_take hmem)] at h
    cases h

/-- Whole octets come first. -/
theorem octets_hex_append (more : List Nat) : (digits : List Nat) → digits.length % 2 = 0 →
    hex.octets (digits ++ more) = hex.octets digits ++ hex.octets more
  | [], _ => rfl
  | high :: low :: rest, h => by
    have hrest := octets_hex_append more rest ((Nat.add_mod_right _ 2).symm.trans h)
    simp only [List.cons_append, octets, hrest]

/-- Characters outside ASCII have no value. -/
theorem value?_of_le (h : 128 ≤ c.toNat) : alphabet.value? c = none := by
  cases alphabet with
  | base62 => exact List.idxOf?_eq_none_iff.2 fun hmem => Nat.not_lt.2 h (lt_of_mem_letters hmem)
  | hex =>
    refine List.idxOf?_eq_none_iff.2 fun hmem => ?_
    rw [toLower_of_le h] at hmem
    exact Nat.not_lt.2 h (lt_of_mem_letters (List.mem_of_mem_take hmem))

/-- The letters stand for the values that a collector takes them for. -/
theorem value?_base62 (c : Char) : base62.value? c = base62Value? c := by
  rcases Nat.lt_or_ge c.toNat 128 with hlt | hge
  · exact forall_ascii (p := fun c => base62.value? c = base62Value? c) (by decide +kernel) hlt
  · rw [value?_of_le hge, base62Value?]
    have hlast {last : Char} (hlast : last.toNat < 128) : ¬ c ≤ last :=
      fun hle => Nat.not_lt.2 hge (lt_of_le_ascii hle hlast)
    rw [if_neg fun h => hlast (by decide) h.2, if_neg fun h => hlast (by decide) h.2,
      if_neg fun h => hlast (by decide) h.2]

theorem value?_hex (c : Char) : hex.value? c = hexValue? c := by
  rcases Nat.lt_or_ge c.toNat 128 with hlt | hge
  · exact forall_ascii (p := fun c => hex.value? c = hexValue? c) (by decide +kernel) hlt
  · rw [value?_of_le hge, eq_comm, ← Option.not_isSome_iff_eq_none, isSome_hexValue?_iff]
    exact fun hmem => Nat.not_lt.2 hge (lt_of_mem_hexDigits hmem)

end Alphabet

namespace Collector

variable {alphabet : Alphabet} {digits : List Nat} {octets : Octets} {collector : Collector}
  {c : Char} {d value : Nat}

/-! ## Calls that change a collector field by field -/

/-- What may go wrong in a call. -/
inductive Mishap where
  /-- The call is refused. -/
  | refused (cause : Cause)
  /-- An octet is to be stored beyond the buffer. -/
  | beyond (place : Nat)
  /-- What is to be stored is no octet. -/
  | oversized (value : Nat)

/-- A call to a collector. -/
abbrev Action := EStateM Mishap Collector

/-- Stores an octet in the buffer. -/
def store (place value : Nat) : Action Unit := fun collector =>
  if 255 < value then .error (.oversized value) collector
  else if h : place < collector.buffer.size then
    .ok () { collector with buffer := collector.buffer.set place (UInt8.ofNat value) }
  else .error (.beyond place) collector

/-- With room for one more octet. -/
def grown (collector : Collector) : Collector :=
  { collector with buffer :=
      if collector.used = collector.buffer.size then
        collector.buffer ++ Array.replicate quantum 0
      else collector.buffer }

/-- Makes room for an octet if there is none, stores the octet, and then counts it. -/
def add (value : Nat) : Action Unit := do
  modify grown
  store (← get).used value
  modify fun collector => { collector with used := collector.used + 1 }

/-- The value of a digit, if it is one. -/
def digit : Option Nat → Action Nat
  | some value => pure value
  | none => throw (.refused .badDataCharacter)

/-- Takes a character. -/
def take (c : Char) : Action Unit := do
  if Text.isBlank c then pure ()
  else
    match (← get).alphabet with
    | .base62 => add (← digit (base62Value? c))
    | .hex =>
      let low ← digit (hexValue? c)
      match (← get).nibble with
      | none => modify ({ · with nibble := some low })
      | some high =>
        add (high <<< 4 ||| low)
        modify ({ · with nibble := none })

/-- Gives the octets. -/
def conclude : Action Octets := do
  if (← get).nibble.isSome then throw (.refused .oddHexDigits)
  pure (← get).octets

theorem store_eq {place : Nat} (hplace : place < collector.buffer.size) (hvalue : value ≤ 255) :
    store place value collector = .ok ()
      { collector with buffer := collector.buffer.setIfInBounds place (UInt8.ofNat value) } := by
  rw [store, if_neg (Nat.not_lt.2 hvalue), dif_pos hplace, Array.setIfInBounds, dif_pos hplace]

theorem used_lt_grown (h : collector.used ≤ collector.buffer.size) :
    collector.used < collector.grown.buffer.size := by
  simp only [grown]
  split
  · next hfull =>
    rw [hfull, Array.size_append, Array.size_replicate]
    exact Nat.lt_add_of_pos_right (by decide)
  · next hroom => exact Nat.lt_of_le_of_ne h hroom

/-- An octet is stored in the buffer. -/
theorem add_eq (hused : collector.used ≤ collector.buffer.size) (hvalue : value ≤ 255) :
    add value collector = .ok () (collector.append value) := by
  have hgrow : (modify grown : Action Unit) collector = .ok () collector.grown := rfl
  have hget : (get : Action Collector) collector.grown = .ok collector.grown collector.grown := rfl
  have hstore := store_eq (used_lt_grown hused) hvalue
  rw [add, bind_of_ok hgrow, bind_of_ok hget]
  exact bind_of_ok hstore

/-! ## What a collector holds -/

/-- A collector holds the octets that digits make, and the last digit if it is the first one of an
octet. The buffer has room for the octets, in whole quanta, and at least one. -/
structure Represents (alphabet : Alphabet) (digits : List Nat) (collector : Collector) : Prop where
  alphabet_eq : collector.alphabet = alphabet
  lt_radix : ∀ digit ∈ digits, digit < alphabet.radix
  size_eq : collector.buffer.size = 1024 * max 1 ((collector.used + 1023) / 1024)
  octets_eq : collector.octets = alphabet.octets digits
  pending_eq : collector.pending = digits.length % alphabet.width
  nibble_suffix : collector.nibble.toList <:+ digits

namespace Represents

theorem start (alphabet : Alphabet) : Represents alphabet [] { alphabet } where
  alphabet_eq := rfl
  lt_radix _ h := absurd h List.not_mem_nil
  size_eq := by
    show (Array.replicate quantum 0).size = 1024 * max 1 ((0 + 1023) / 1024)
    rw [Array.size_replicate]
    decide
  octets_eq := by cases alphabet <;> simp [Collector.octets, Alphabet.octets]
  pending_eq := by cases alphabet <;> rfl
  nibble_suffix := List.nil_suffix

variable (h : Represents alphabet digits collector)
include h

theorem used_le : collector.used ≤ collector.buffer.size := by
  have hsize := h.size_eq
  omega

theorem used_eq : collector.used = (alphabet.octets digits).length := by
  have hoctets := congrArg List.length h.octets_eq
  rw [Collector.octets, Array.length_toList, Array.size_extract, Nat.sub_zero,
    Nat.min_eq_left h.used_le] at hoctets
  exact hoctets

/-- No more room is made than is needed for one more octet. -/
theorem size_append (value : Nat) : (collector.append value).buffer.size =
    1024 * max 1 (((collector.append value).used + 1023) / 1024) := by
  have hsize := h.size_eq
  obtain ⟨kind, buffer, used, nibble⟩ := collector
  simp only [append, Array.size_setIfInBounds]
  simp only at hsize
  split
  · next hfull =>
    rw [Array.size_append, Array.size_replicate, quantum]
    omega
  · next hroom => omega

theorem lt_radix_append (hd : d < alphabet.radix) :
    ∀ digit ∈ digits ++ [d], digit < alphabet.radix :=
  List.forall_mem_append.2 ⟨h.lt_radix, List.forall_mem_singleton.2 hd⟩

/-- The first digit of an octet is pending. -/
theorem push (halphabet : alphabet = .hex) (hnibble : collector.nibble = none)
    (hd : d < alphabet.radix) :
    Represents alphabet (digits ++ [d]) { collector with nibble := some d } := by
  have hradix := h.lt_radix_append hd
  have hwhole := h.pending_eq
  subst halphabet
  simp only [pending, hnibble, Option.isSome_none, Bool.false_eq_true, if_false,
    Alphabet.width] at hwhole
  refine ⟨h.alphabet_eq, hradix, h.size_eq, ?_, ?_, List.suffix_append _ _⟩
  · rw [Alphabet.octets_hex_append _ _ hwhole.symm, ← h.octets_eq]
    exact (List.append_nil _).symm
  · simp only [pending, Option.isSome_some, if_true, Alphabet.width, List.length_append,
      List.length_singleton]
    omega

/-- The second digit completes an octet. -/
theorem complete {high : Nat} (halphabet : alphabet = .hex) (hnibble : collector.nibble = some high)
    (hd : d < alphabet.radix) :
    Represents alphabet (digits ++ [d])
      { collector.append (high * 16 + d) with nibble := none } := by
  have hradix := h.lt_radix_append hd
  have hodd := h.pending_eq
  have hoctets := h.octets_eq
  have hsuffix := h.nibble_suffix
  subst halphabet
  rw [hnibble] at hsuffix
  obtain ⟨whole, rfl⟩ := hsuffix
  simp only [pending, hnibble, Option.isSome_some, if_true, Alphabet.width, Option.toList_some,
    List.length_append, List.length_singleton] at hodd
  have hwhole : whole.length % 2 = 0 := by omega
  refine ⟨h.alphabet_eq, hradix, h.size_append _, ?_, ?_, List.nil_suffix⟩
  · show (collector.append (high * 16 + d)).octets = _
    rw [Option.toList_some, Alphabet.octets_hex_append _ _ hwhole] at hoctets
    rw [(octets_append _ h.used_le).1, hoctets, Option.toList_some,
      List.append_assoc whole, Alphabet.octets_hex_append _ _ hwhole]
    simp only [Alphabet.octets, List.append_nil, List.cons_append, List.nil_append]
  · simp only [pending, Option.isSome_none, Bool.false_eq_true, if_false, Alphabet.width,
      Option.toList_some, List.length_append, List.length_singleton]
    omega

/-- A letter is an octet of its own. -/
theorem extend (halphabet : alphabet = .base62) (hd : d < alphabet.radix) :
    Represents alphabet (digits ++ [d]) (collector.append d) := by
  have hradix := h.lt_radix_append hd
  have hpending := h.pending_eq
  subst halphabet
  rw [Alphabet.width, Nat.mod_one] at hpending
  have hnibble : collector.nibble = none := by
    cases hnibble : collector.nibble with
    | none => rfl
    | some high => simp [pending, hnibble] at hpending
  refine ⟨h.alphabet_eq, hradix, h.size_append d, ?_, ?_, ?_⟩
  · rw [(octets_append d h.used_le).1, h.octets_eq]
    simp only [Alphabet.octets, List.map_append, List.map_cons, List.map_nil]
  · rw [Alphabet.width, Nat.mod_one]
    exact hpending
  · show collector.nibble.toList <:+ _
    rw [hnibble]
    exact List.nil_suffix

/-- A digit is taken. -/
theorem feed_digit (hvalue : alphabet.value? c = some d) :
    ∃ next, collector.feed c = .ok next ∧ Represents alphabet (digits ++ [d]) next := by
  have hblank : Text.isBlank c = false := by
    cases hblank : Text.isBlank c with
    | false => rfl
    | true =>
      rw [Alphabet.value?_of_isBlank hblank] at hvalue
      cases hvalue
  have hd := Alphabet.value?_lt hvalue
  cases alphabet with
  | base62 =>
    rw [Alphabet.value?_base62] at hvalue
    refine ⟨_, ?_, h.extend rfl hd⟩
    simp only [feed, hblank, h.alphabet_eq, hvalue, Bool.false_eq_true, if_false]
  | hex =>
    rw [Alphabet.value?_hex] at hvalue
    cases hnibble : collector.nibble with
    | none =>
      refine ⟨_, ?_, h.push rfl hnibble hd⟩
      simp only [feed, hblank, h.alphabet_eq, hvalue, hnibble, Bool.false_eq_true, if_false]
    | some high =>
      refine ⟨_, ?_, h.complete rfl hnibble hd⟩
      simp only [feed, hblank, h.alphabet_eq, hvalue, hnibble, Bool.false_eq_true, if_false]

/-- Every other character is skipped if it is a blank, and refused if it is not. -/
theorem feed_other (hvalue : alphabet.value? c = none) : collector.feed c =
    if Text.isBlank c then .ok collector else .error .badDataCharacter := by
  cases alphabet with
  | base62 =>
    rw [Alphabet.value?_base62] at hvalue
    simp only [feed, h.alphabet_eq, hvalue]
  | hex =>
    rw [Alphabet.value?_hex] at hvalue
    simp only [feed, h.alphabet_eq, hvalue]

/-- The characters are taken as `feed` says: whatever is stored is an octet and has room. -/
theorem take_eq (c : Char) : take c collector =
    match collector.feed c with
    | .ok next => .ok () next
    | .error cause => .error (.refused cause) collector := by
  have hradix := h.lt_radix
  have hsuffix := h.nibble_suffix
  have hused := h.used_le
  have halphabet := h.alphabet_eq
  unfold take feed
  split
  · rfl
  obtain ⟨kind, buffer, used, nibble⟩ := collector
  subst halphabet
  cases kind with
  | base62 =>
    cases hvalue : base62Value? c with
    | none => rfl
    | some value =>
      rw [← Alphabet.value?_base62] at hvalue
      exact add_eq hused (Nat.le_trans (Nat.le_of_lt (Alphabet.value?_lt hvalue)) (by decide))
  | hex =>
    cases hvalue : hexValue? c with
    | none => rfl
    | some low =>
      cases nibble with
      | none => rfl
      | some high =>
        rw [← Alphabet.value?_hex] at hvalue
        have hlow : low < 16 := Alphabet.value?_lt hvalue
        have hhigh : high < 16 := hradix high (hsuffix.mem (List.mem_singleton_self high))
        have hoctet : high <<< 4 ||| low = high * 16 + low := by
          rw [← Nat.shiftLeft_add_eq_or_of_lt hlow, Nat.shiftLeft_eq]
        have hadd : add (high <<< 4 ||| low) ⟨.hex, buffer, used, some high⟩ =
            .ok () (append (high * 16 + low) ⟨.hex, buffer, used, some high⟩) := by
          rw [hoctet]
          exact add_eq hused (by omega)
        exact bind_of_ok hadd

end Represents

/-- The octets are given as `finish` says, and the collector stays as it is. -/
theorem conclude_eq (collector : Collector) : conclude collector =
    match collector.finish with
    | .ok octets => .ok octets collector
    | .error cause => .error (.refused cause) collector := by
  obtain ⟨alphabet, buffer, used, nibble⟩ := collector
  cases nibble <;> rfl

/-! ## Calls one after the other -/

/-- The calls to a collector. -/
inductive Call where
  | feed (c : Char)
  | finish

/-- Carries out a call. -/
def Call.run : Call → Action Unit
  | feed c => take c
  | finish => do let _ ← conclude

/-- The digit that a call adds. -/
def Call.digit? (alphabet : Alphabet) : Call → Option Nat
  | feed c => alphabet.value? c
  | finish => none

/-- A collector after calls, of which some may have failed. -/
def afterCalls (collector : Collector) (calls : List Call) : Collector :=
  calls.foldl (fun collector call => (ended (call.run collector)).2) collector

variable {call : Call} {cause : Cause}

theorem run_finish (collector : Collector) :
    (ended (Call.finish.run collector)).2 = collector := by
  obtain ⟨alphabet, buffer, used, nibble⟩ := collector
  cases nibble <;> rfl

/-- A call that fails has been refused, and has changed nothing. -/
theorem Represents.run_error (h : Represents alphabet digits collector) {mishap : Mishap}
    {after : Collector} (hrun : call.run collector = .error mishap after) :
    (∃ cause, mishap = .refused cause) ∧ after = collector := by
  cases call with
  | feed c =>
    rw [Call.run, h.take_eq] at hrun
    cases hfeed : collector.feed c with
    | ok next =>
      rw [hfeed] at hrun
      cases hrun
    | error cause =>
      rw [hfeed] at hrun
      cases hrun
      exact ⟨⟨cause, rfl⟩, rfl⟩
  | finish =>
    obtain ⟨alphabet, buffer, used, nibble⟩ := collector
    cases nibble with
    | none => cases hrun
    | some high =>
      cases hrun
      exact ⟨⟨.oddHexDigits, rfl⟩, rfl⟩

/-- A call adds a digit, or changes nothing. -/
theorem Represents.run (h : Represents alphabet digits collector) (call : Call) :
    Represents alphabet (digits ++ (call.digit? alphabet).toList)
      (ended (call.run collector)).2 := by
  cases call with
  | finish =>
    rw [run_finish]
    exact (List.append_nil digits).symm ▸ h
  | feed c =>
    rw [Call.run, h.take_eq, Call.digit?]
    cases hvalue : alphabet.value? c with
    | some d =>
      obtain ⟨next, hfeed, hnext⟩ := h.feed_digit hvalue
      rw [hfeed]
      exact hnext
    | none =>
      rw [h.feed_other hvalue, Option.toList_none, List.append_nil]
      split
      · rename_i hnext
        split at hnext
        · exact Except.ok.inj hnext ▸ h
        · cases hnext
      · exact h

/-- By induction on the calls, each of which adds its digit. -/
theorem Represents.afterCalls (h : Represents alphabet digits collector) (calls : List Call) :
    Represents alphabet (digits ++ calls.filterMap (·.digit? alphabet))
      (collector.afterCalls calls) := by
  induction calls generalizing digits collector with
  | nil => exact (List.append_nil digits).symm ▸ h
  | cons call calls ih =>
    have hafter := ih (h.run call)
    rw [List.append_assoc] at hafter
    cases hdigit : call.digit? alphabet with
    | none =>
      rw [List.filterMap_cons_none hdigit]
      rwa [hdigit] at hafter
    | some d =>
      rw [List.filterMap_cons_some hdigit]
      rwa [hdigit] at hafter

theorem Represents.isSome_nibble_iff (h : Represents alphabet digits collector) :
    collector.nibble.isSome ↔ alphabet = .hex ∧ digits.length % 2 = 1 := by
  have hpending := h.pending_eq
  unfold pending at hpending
  cases alphabet with
  | base62 =>
    rw [Alphabet.width, Nat.mod_one] at hpending
    simpa using hpending
  | hex =>
    rw [Alphabet.width] at hpending
    cases hnibble : collector.nibble.isSome <;> simp_all

/-- A character that is neither a blank nor a digit is refused. -/
theorem Represents.feed_error_iff (h : Represents alphabet digits collector) (c : Char) :
    collector.feed c = .error .badDataCharacter ↔
      Text.isBlank c = false ∧ alphabet.value? c = none := by
  cases hvalue : alphabet.value? c with
  | some d =>
    obtain ⟨next, hfeed, -⟩ := h.feed_digit hvalue
    simp [hfeed]
  | none =>
    rw [h.feed_other hvalue]
    cases Text.isBlank c <;> simp

/-- A call that changes nothing can be left out. -/
theorem afterCalls_of_ended {calls : List Call}
    (h : (ended (call.run (collector.afterCalls calls))).2 = collector.afterCalls calls)
    (more : List Call) :
    collector.afterCalls (calls ++ call :: more) = collector.afterCalls (calls ++ more) := by
  unfold afterCalls at h ⊢
  rw [List.foldl_append, List.foldl_append, List.foldl_cons, h]

/-- After any calls the buffer starts with the octets that the digits among the characters make, and
has just the room that is needed for them. Every further call does what `feed` and `finish` say:
nothing is stored beyond the buffer, and nothing but octets. A call that fails could as well be left
out, and so could every `finish`. -/
theorem buffer_exact (alphabet : Alphabet) (calls : List Call) :
    let collector := afterCalls { alphabet } calls
    let digits := calls.filterMap (·.digit? alphabet)
    collector.used ≤ collector.buffer.size ∧
    collector.buffer.size = 1024 * max 1 ((collector.used + 1023) / 1024) ∧
    collector.used = (alphabet.octets digits).length ∧
    (collector.buffer.extract 0 collector.used).toList = alphabet.octets digits ∧
    (collector.nibble.isSome ↔ alphabet = .hex ∧ digits.length % 2 = 1) ∧
    (∀ c, take c collector =
      match collector.feed c with
      | .ok next => .ok () next
      | .error cause => .error (.refused cause) collector) ∧
    (conclude collector =
      match collector.finish with
      | .ok octets => .ok octets collector
      | .error cause => .error (.refused cause) collector) ∧
    (∀ c, collector.feed c = .error .badDataCharacter ↔
      Text.isBlank c = false ∧ alphabet.value? c = none) ∧
    (∀ call mishap after, call.run collector = .error mishap after →
      (∃ cause, mishap = .refused cause) ∧ ∀ more,
        afterCalls { alphabet } (calls ++ call :: more) =
          afterCalls { alphabet } (calls ++ more)) ∧
    ∀ more, afterCalls { alphabet } (calls ++ .finish :: more) =
      afterCalls { alphabet } (calls ++ more) := by
  intro collector digits
  have h : Represents alphabet digits collector := (Represents.start alphabet).afterCalls calls
  refine ⟨h.used_le, h.size_eq, h.used_eq, h.octets_eq, h.isSome_nibble_iff, h.take_eq,
    conclude_eq collector, h.feed_error_iff, ?_, afterCalls_of_ended (run_finish collector)⟩
  intro call mishap after hrun
  obtain ⟨hrefused, hafter⟩ := h.run_error hrun
  refine ⟨hrefused, afterCalls_of_ended ?_⟩
  show (ended (call.run collector)).2 = collector
  rw [hrun]
  exact hafter

/-- A bad character between the two digits of an octet could as well be left out. -/
theorem buffer_exact_refused :
    (Call.feed 'g').run (afterCalls { alphabet := .hex } [.feed 'f']) =
      .error (.refused .badDataCharacter) (afterCalls { alphabet := .hex } [.feed 'f']) ∧
    afterCalls { alphabet := .hex } [.feed 'f', .feed 'g', .feed '0'] =
      afterCalls { alphabet := .hex } [.feed 'f', .feed '0'] :=
  have hrun : (Call.feed 'g').run (afterCalls { alphabet := .hex } [.feed 'f']) =
      .error (.refused .badDataCharacter) (afterCalls { alphabet := .hex } [.feed 'f']) := rfl
  ⟨hrun, ((buffer_exact .hex [.feed 'f']).2.2.2.2.2.2.2.2.1 _ _ _ hrun).2 [.feed '0']⟩

end Collector

end ScriptedPng.Segment
