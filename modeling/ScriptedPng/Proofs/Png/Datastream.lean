import ScriptedPng.Proofs.Png.Progress

/-!
# Datastreams

The chunks of a datastream come in a prescribed order of types. Whatever has been written while a
datastream is under way can be taken apart again, and its chunks are the beginning of such an order.

## Main definitions

* `Png.IsWord` — the types of the chunks of a whole datastream.
* `Png.IsStart` — the types that a datastream can start with.
* `Png.Datastream` — the octets of the signature and of some chunks in their frames.

## Main statements

* `Png.split?_frames` — a datastream is taken apart into its signature and its chunks.
-/

namespace ScriptedPng.Png

/-! ## Orders of types -/

/-- The types that may come between the header and the data, in this order. -/
def optionalTypes : List Octets := [gammaType, intentType, chromaticityType, paletteType]

/-- The types of the chunks of a whole datastream. -/
def IsWord (types : List Octets) : Prop :=
  ∃ before n, before.Sublist optionalTypes ∧
    types = headerType :: (before ++ List.replicate (n + 1) dataType ++ [endType])

/-- The types of chunks that a datastream can start with. -/
def IsStart (types : List Octets) : Prop :=
  ∃ word, IsWord word ∧ types <+: word

theorem IsStart.of_isPrefix {types others : List Octets} (h : IsStart others)
    (hbegins : types <+: others) : IsStart types := by
  obtain ⟨word, hword, hothers⟩ := h
  exact ⟨word, hword, hbegins.trans hothers⟩

/-- A datastream holds chunks of seven types only. -/
theorem IsStart.mem {types : List Octets} (h : IsStart types) {type : Octets}
    (hmem : type ∈ types) : type ∈ headerType :: dataType :: endType :: optionalTypes := by
  obtain ⟨_, ⟨before, n, hbefore, rfl⟩, hbegins⟩ := h
  have hsubset := hbefore.subset (a := type)
  have hword := hbegins.subset hmem
  simp only [List.mem_cons, List.mem_append, List.mem_replicate, List.not_mem_nil, or_false] at *
  rcases hword with rfl | (hword | ⟨-, rfl⟩) | rfl
  · exact .inl rfl
  · exact .inr (.inr (.inr (hsubset hword)))
  · exact .inr (.inl rfl)
  · exact .inr (.inr (.inl rfl))

theorem infoTypes_eq (given : Given) :
    ∃ before, before.Sublist optionalTypes ∧ infoTypes given = headerType :: before ∧
      (paletteType ∈ before ↔ given.palette = true) ∧ dataType ∉ before ∧ endType ∉ before := by
  obtain ⟨gamma, chromaticities, intent, palette⟩ := given
  refine ⟨_, ?_, rfl, ?_, ?_, ?_⟩ <;> dsimp only <;> revert gamma chromaticities intent palette <;>
    decide

theorem isWord_of_info (given : Given) (n : Nat) :
    IsWord (infoTypes given ++ List.replicate (n + 1) dataType ++ [endType]) := by
  obtain ⟨before, hbefore, htypes, -⟩ := infoTypes_eq given
  exact ⟨before, n, hbefore, by simp [htypes]⟩

theorem isStart_of_info (given : Given) (n : Nat) :
    IsStart (infoTypes given ++ List.replicate n dataType) := by
  refine ⟨_, isWord_of_info given n, ?_⟩
  rw [List.replicate_succ', List.append_assoc, List.append_assoc]
  exact (List.prefix_append_right_inj _).2 (List.prefix_append _ _)

/-! ## Octets of datastreams -/

/-- The octets are the signature and the chunks in their frames. -/
structure Datastream (chunks : List Chunk) (octets : Octets) : Prop where
  octets_eq : octets = signature ++ chunks.flatMap Chunk.encode
  hasFrame : ∀ chunk ∈ chunks, chunk.HasFrame
  isStart : IsStart (chunks.map Chunk.type)

/-- The end of the signature, where the type of a chunk would be. -/
def signatureEnd : Octets := signature.drop 4

theorem take_encode (chunk : Chunk) (rest : Octets) :
    (chunk.encode ++ rest).take 4 = Octets.big 4 chunk.data.length := by
  simp only [Chunk.encode, List.append_assoc]
  exact List.take_left' (Octets.length_big _ _)

theorem drop_encode (chunk : Chunk) (rest : Octets) :
    (chunk.encode ++ rest).drop 4 =
      chunk.type ++ (chunk.data ++ (Octets.big 4 chunk.checksum ++ rest)) := by
  have hlength := Octets.length_big 4 chunk.data.length
  rw [Chunk.encode, List.append_assoc, List.append_assoc, List.append_assoc,
    List.drop_left' hlength]

/-- The type of a chunk tells its frame from the signature. -/
theorem not_isPrefixOf_encode {chunk : Chunk} (h : chunk.type.length = 4)
    (htype : chunk.type ≠ signatureEnd) (rest : Octets) :
    signature.isPrefixOf (chunk.encode ++ rest) = false := by
  rw [Bool.eq_false_iff]
  intro hbegins
  obtain ⟨tail, htail⟩ := List.isPrefixOf_iff_prefix.1 hbegins
  have hdrop := drop_encode chunk rest
  rw [← htail] at hdrop
  refine htype ?_
  have htake := congrArg (List.take 4) hdrop
  rw [List.take_left' h] at htake
  exact htake.symm

/-- The frame of a chunk is taken apart, unless its type continues the signature. -/
theorem splitPart?_encode {chunk : Chunk} (h : chunk.HasFrame) (htype : chunk.type ≠ signatureEnd)
    (rest : Octets) :
    splitPart? (chunk.encode ++ rest) = some (.chunk chunk chunk.checksum, rest) := by
  obtain ⟨type, data⟩ := chunk
  obtain ⟨htypes, hdata⟩ := h
  dsimp only at htypes hdata htype
  have hdrop := drop_encode ⟨type, data⟩ rest
  have hfront := take_encode ⟨type, data⟩ rest
  have hlength : ((Chunk.encode ⟨type, data⟩) ++ rest).length =
      12 + data.length + rest.length := by
    simp [Chunk.encode, htypes]
    omega
  have hback : ((Chunk.encode ⟨type, data⟩) ++ rest).drop 8 =
      data ++ (Octets.big 4 (Chunk.checksum ⟨type, data⟩) ++ rest) := by
    rw [show 8 = 4 + 4 from rfl, ← List.drop_drop, hdrop]
    exact List.drop_left' htypes
  have hchecksum : Chunk.checksum ⟨type, data⟩ < Nat.pow 256 4 := UInt32.toNat_lt _
  have hsignature : signature.isPrefixOf (Chunk.encode ⟨type, data⟩ ++ rest) = false :=
    not_isPrefixOf_encode htypes htype rest
  have hnumber : (Octets.big 4 data.length).number = data.length := by
    rw [Octets.number_big]
    exact Nat.mod_eq_of_lt hdata
  have hdone : (data ++ (Octets.big 4 (Chunk.checksum ⟨type, data⟩) ++ rest)).drop
      (data.length + 4) = rest := by
    rw [← List.append_assoc]
    exact List.drop_left' (by simp)
  rw [splitPart?, hsignature, hback, hfront, hdrop, hnumber, if_neg (by decide),
    if_neg (by omega), if_neg (by simp)]
  simp only [hdone, List.take_left' htypes, List.take_left', List.drop_left',
    List.take_left' (Octets.length_big 4 _), Octets.number_big, Nat.mod_eq_of_lt hchecksum]

theorem splitPart?_signature (rest : Octets) :
    splitPart? (signature ++ rest) = some (.signature, rest) := by
  rw [splitPart?, if_pos (List.isPrefixOf_iff_prefix.2 (List.prefix_append _ _)),
    List.drop_left' rfl]

theorem split?_of_splitPart? {stream rest : Octets} {part : Part} (hne : stream ≠ [])
    (h : splitPart? stream = some (part, rest)) :
    split? stream = (split? rest).map (part :: ·) := by
  rw [split?, dif_neg hne]
  split
  · rename_i hnone
    rw [h] at hnone
    cases hnone
  · rename_i found after hsome
    rw [h] at hsome
    cases hsome
    rfl

/-- A chunk with its checksum, as a part of a datastream. -/
def Chunk.part (chunk : Chunk) : Part := .chunk chunk chunk.checksum

/-- The frames of chunks are taken apart one after the other. -/
theorem split?_frames {chunks : List Chunk}
    (h : ∀ chunk ∈ chunks, chunk.HasFrame ∧ chunk.type ≠ signatureEnd) :
    split? (chunks.flatMap Chunk.encode) = some (chunks.map Chunk.part) := by
  induction chunks with
  | nil => rw [List.flatMap_nil, split?, dif_pos rfl, List.map_nil]
  | cons chunk rest ih =>
    obtain ⟨hframe, htype⟩ := h chunk List.mem_cons_self
    rw [List.flatMap_cons, split?_of_splitPart? _ (splitPart?_encode hframe htype _),
      ih fun chunk hmem => h chunk (List.mem_cons_of_mem _ hmem)]
    · rfl
    · exact List.append_ne_nil_of_left_ne_nil (by simp [Chunk.encode, Octets.big]) _

theorem IsStart.ne_signatureEnd {types : List Octets} (h : IsStart types) {type : Octets}
    (hmem : type ∈ types) : type ≠ signatureEnd := by
  have hall : ∀ type ∈ headerType :: dataType :: endType :: optionalTypes, type ≠ signatureEnd := by
    decide
  exact hall type (h.mem hmem)

/-- A datastream is taken apart into the signature, which comes once, and the chunks with the right
checksums. -/
theorem Datastream.split?_eq {chunks : List Chunk} {octets : Octets}
    (h : Datastream chunks octets) :
    split? octets = some (.signature :: chunks.map Chunk.part) := by
  obtain ⟨rfl, hframe, hstart⟩ := h
  rw [split?_of_splitPart? _ (splitPart?_signature _), split?_frames fun chunk hmem =>
    ⟨hframe chunk hmem, hstart.ne_signatureEnd (List.mem_map_of_mem hmem)⟩]
  · rfl
  · exact List.append_ne_nil_of_left_ne_nil (by simp [signature]) _

end ScriptedPng.Png
