import ScriptedPng.Proofs.Png.Progress

/-!
# Numbers that overflow

Numbers are stored in fixed-point form. A number that has been read is finite, but it may overflow
when it is scaled; then it has no integer part, and the plan of the chunks before the pixel data
stops at its chunk with a failure beyond diagnostics. Every other way for a plan to stop has a
diagnostic.

## Main definitions

* `Png.Overflows` — writing an image stops at a number after chunks of the given types.

## Main statements

* `Png.infoPlan_stopsAt` — where a plan stops with a number, the image overflows.
* `Overflows.stopsAt` — a plan that comes as far as that stops there.
* `Png.failsWriting_infoPlan` — other failures of a plan are diagnostics of writing.
-/

namespace ScriptedPng.Png

open Diagnostic Record

/-- The fixed-point form of the number has no integer part. -/
def IsUnstorable (value : Double) : Prop := ∃ fault, FixedPoint.ofDouble value = .error fault

/-- Writing the image stops at a number that cannot be stored, after chunks of the given types: at
its gamma, or at one of its chromaticities. -/
def Overflows (image : Image) (types : List Octets) : Prop :=
  types = [headerType] ∧ image.given.gamma = true ∧ IsUnstorable image.gamma ∨
  types = [headerType] ++ ((if image.given.gamma then [gammaType] else []) ++
      if image.given.intent then [intentType] else []) ∧
    image.given.chromaticities = true ∧
    ∃ value ∈ image.chromaticities.coordinates, IsUnstorable value

namespace Plan

/-! ## Plans of one chunk -/

/-- The types of the chunks that are written. -/
def types (plan : Plan) : List Octets := plan.chunks.map Chunk.type

/-- Either the chunks of the given types are written, or none and the plan fails. -/
def AllOrNothing (types : List Octets) (plan : Plan) : Prop :=
  plan.result = .ok () ∧ plan.types = types ∨
    types ≠ [] ∧ plan.types = [] ∧ plan.result ≠ .ok ()

/-- The plan stops with a number after chunks of the given types. -/
def StopsAt (types : List Octets) (plan : Plan) : Prop :=
  (∃ fault, plan.result = .error (.number fault)) ∧ plan.types = types

variable {types rest : List Octets} {plan next : Plan}

theorem allOrNothing_ofData (type : Octets) (data : Field) :
    (ofData type data).AllOrNothing [type] := by
  cases hchunk : chunk? type data with
  | none => simp [AllOrNothing, ofData, hchunk, Plan.types]
  | some chunk =>
    obtain ⟨-, -, rfl⟩ := chunk?_eq_some.1 hchunk
    simp [AllOrNothing, ofData, hchunk, Plan.types]

theorem allOrNothing_ofNumbers (type : Octets) (data : Except Double.NoInteger Field) :
    (ofNumbers type data).AllOrNothing [type] := by
  cases data with
  | error fault => simp [AllOrNothing, ofNumbers, Plan.types]
  | ok data => exact allOrNothing_ofData type data

theorem AllOrNothing.when (condition : Bool) (h : plan.AllOrNothing types) :
    (Plan.when condition plan).AllOrNothing (if condition then types else []) := by
  cases condition with
  | false => exact .inl ⟨rfl, rfl⟩
  | true => exact h

/-- What comes after chunks is planned only once they are written. -/
theorem AllOrNothing.prefix_andThen (h : plan.AllOrNothing types)
    (hbegins : types ++ rest <+: (plan.andThen next).types) :
    plan.result = .ok () ∧ rest <+: next.types := by
  obtain ⟨chunks, result⟩ := plan
  rcases h with ⟨rfl, htypes⟩ | ⟨hne, htypes, hresult⟩
  · refine ⟨rfl, (List.prefix_append_right_inj types).1 ?_⟩
    have hmap : chunks.map Chunk.type = types := htypes
    simpa [andThen, Plan.types, hmap] using hbegins
  · cases result with
    | ok done => exact absurd rfl hresult
    | error failure =>
      have hnil : types ++ rest = [] := by
        refine List.prefix_nil.1 (hbegins.trans ?_)
        exact htypes ▸ List.prefix_rfl
      exact absurd (List.append_eq_nil_iff.1 hnil).1 hne

theorem AllOrNothing.result_eq (h : plan.AllOrNothing types)
    (hbegins : types <+: (plan.andThen next).types) : plan.result = .ok () := by
  rw [← List.append_nil types] at hbegins
  exact (h.prefix_andThen hbegins).1

theorem AllOrNothing.types_eq (h : plan.AllOrNothing types) (hresult : plan.result = .ok ()) :
    plan.types = types := by
  rcases h with ⟨-, htypes⟩ | ⟨-, -, hne⟩
  · exact htypes
  · exact absurd hresult hne

/-! ## Where plans stop -/

theorem not_stopsAt_ofData {type : Octets} {data : Field} : ¬ (ofData type data).StopsAt types := by
  rintro ⟨⟨fault, hresult⟩, -⟩
  simp only [ofData] at hresult
  split at hresult <;> cases hresult

theorem stopsAt_ofNumbers {type : Octets} {data : Except Double.NoInteger Field} :
    (ofNumbers type data).StopsAt types ↔ types = [] ∧ ∃ fault, data = .error fault := by
  cases data with
  | error fault => simp [ofNumbers, StopsAt, Plan.types, eq_comm]
  | ok data => simpa [ofNumbers] using not_stopsAt_ofData

theorem stopsAt_when {condition : Bool} :
    (Plan.when condition plan).StopsAt types ↔ condition = true ∧ plan.StopsAt types := by
  cases condition with
  | false => simp [Plan.when, StopsAt]
  | true => simp [Plan.when]

theorem stopsAt_andThen : (plan.andThen next).StopsAt types ↔
    plan.StopsAt types ∨
      plan.result = .ok () ∧ ∃ rest, next.StopsAt rest ∧ types = plan.types ++ rest := by
  obtain ⟨chunks, result⟩ := plan
  cases result with
  | error failure => simp [andThen, StopsAt]
  | ok done =>
    simp only [andThen, StopsAt, Plan.types, List.map_append]
    constructor
    · rintro ⟨hresult, rfl⟩
      exact .inr ⟨trivial, _, ⟨hresult, rfl⟩, rfl⟩
    · rintro (⟨⟨_, hresult⟩, -⟩ | ⟨-, rest, ⟨hresult, rfl⟩, rfl⟩)
      · cases hresult
      · exact ⟨hresult, rfl⟩

/-- A failure of the plan that is not about a number is a diagnostic of writing. -/
def FailsWriting (plan : Plan) : Prop :=
  ∀ failure, plan.result = .error failure → (∃ fault, failure = .number fault) ∨
    ∃ diagnostic, failure = .diagnostic diagnostic ∧ OfWriting diagnostic

theorem failsWriting_ofData {type : Octets} (data : Field) (htype : Text.OneLine type.toText) :
    (ofData type data).FailsWriting := by
  intro failure hresult
  simp only [ofData] at hresult
  split at hresult <;> cases hresult
  exact .inr ⟨_, rfl, rfl, by simpa [Cause.texts] using htype⟩

theorem failsWriting_ofNumbers {type : Octets} (data : Except Double.NoInteger Field)
    (htype : Text.OneLine type.toText) : (ofNumbers type data).FailsWriting := by
  cases data with
  | error fault =>
    rintro _ ⟨⟩
    exact .inl ⟨fault, rfl⟩
  | ok data => exact failsWriting_ofData data htype

theorem FailsWriting.when (condition : Bool) (h : plan.FailsWriting) :
    (Plan.when condition plan).FailsWriting := by
  cases condition with
  | false => rintro _ ⟨⟩
  | true => exact h

theorem FailsWriting.andThen (h : plan.FailsWriting) (hnext : next.FailsWriting) :
    (plan.andThen next).FailsWriting := by
  obtain ⟨chunks, result⟩ := plan
  cases result with
  | ok done => exact hnext
  | error failure => exact h

end Plan

/-! ## The plan of the chunks before the pixel data -/

theorem gammaData_eq_error {image : Image} :
    (∃ fault, gammaData image = .error fault) ↔ IsUnstorable image.gamma := by
  rw [gammaData, IsUnstorable]
  cases FixedPoint.ofDouble image.gamma <;> simp [Except.map]

theorem chromaticityData_eq_error {image : Image} :
    (∃ fault, chromaticityData image = .error fault) ↔
      ∃ value ∈ image.chromaticities.coordinates, IsUnstorable value := by
  have hall (values : List Double) :
      (∃ fault, values.mapM FixedPoint.ofDouble = .error fault) ↔
        ∃ value ∈ values, IsUnstorable value := by
    induction values with
    | nil => simp [pure, Except.pure]
    | cons value rest ih =>
      simp only [List.mem_cons, exists_eq_or_imp, ← ih]
      rw [List.mapM_cons, IsUnstorable]
      cases FixedPoint.ofDouble value <;> cases rest.mapM FixedPoint.ofDouble <;>
        simp [bind, Except.bind, pure, Except.pure]
  rw [chromaticityData, ← hall]
  cases image.chromaticities.coordinates.mapM FixedPoint.ofDouble <;> simp [Except.map]

variable {image : Image} {type : ColorType} {types : List Octets}

/-- Where the plan stops with a number, the image overflows. -/
theorem infoPlan_stopsAt (h : (infoPlan image type).StopsAt types) : Overflows image types := by
  simp only [infoPlan, Plan.stopsAt_andThen, Plan.stopsAt_when, Plan.stopsAt_ofNumbers,
    Plan.not_stopsAt_ofData, and_false, false_or, gammaData_eq_error,
    chromaticityData_eq_error, exists_false, false_and, or_false] at h
  obtain ⟨hheader, rest, h, rfl⟩ := h
  rw [(Plan.allOrNothing_ofData _ _).types_eq hheader]
  rcases h with ⟨hgiven, rfl, hgamma⟩ | ⟨hgamma, rest, ⟨hintent, rest, h, rfl⟩, rfl⟩
  · exact .inl ⟨rfl, hgiven, hgamma⟩
  · obtain ⟨hgiven, rfl, hvalues⟩ := h
    rw [((Plan.allOrNothing_ofNumbers _ _).when _).types_eq hgamma,
      ((Plan.allOrNothing_ofData _ _).when _).types_eq hintent, List.append_nil]
    exact .inr ⟨rfl, hgiven, hvalues⟩

/-- A plan that comes as far as a number that overflows stops there. -/
theorem Overflows.stopsAt (h : Overflows image types)
    (hbegins : types <+: (infoPlan image type).types) :
    (infoPlan image type).StopsAt types := by
  have hheader := Plan.allOrNothing_ofData headerType
    (headerRecord image.width image.height image.bitDepth type image.interlace)
  rcases h with ⟨rfl, hgiven, hgamma⟩ | ⟨rfl, hgiven, hvalues⟩
  · have hok := hheader.result_eq hbegins
    rw [infoPlan, Plan.stopsAt_andThen]
    refine .inr ⟨hok, [], ?_, by rw [hheader.types_eq hok]; rfl⟩
    rw [Plan.stopsAt_andThen, Plan.stopsAt_when, Plan.stopsAt_ofNumbers]
    exact .inl ⟨hgiven, rfl, gammaData_eq_error.2 hgamma⟩
  · have hgamma := (Plan.allOrNothing_ofNumbers gammaType (gammaData image)).when image.given.gamma
    have hintent := (Plan.allOrNothing_ofData intentType (intentData image)).when image.given.intent
    obtain ⟨hok, hbegins⟩ := hheader.prefix_andThen hbegins
    obtain ⟨hok', hbegins⟩ := hgamma.prefix_andThen hbegins
    have hok'' := hintent.result_eq hbegins
    rw [infoPlan, Plan.stopsAt_andThen]
    refine .inr ⟨hok, _, ?_, by rw [hheader.types_eq hok]⟩
    rw [Plan.stopsAt_andThen]
    refine .inr ⟨hok', _, ?_, by rw [hgamma.types_eq hok']⟩
    rw [Plan.stopsAt_andThen]
    refine .inr ⟨hok'', [], ?_, by rw [hintent.types_eq hok'', List.append_nil]⟩
    rw [Plan.stopsAt_andThen, Plan.stopsAt_when, Plan.stopsAt_ofNumbers]
    exact .inl ⟨hgiven, rfl, chromaticityData_eq_error.2 hvalues⟩

/-- A failure of the plan that is not about a number is a diagnostic of writing. -/
theorem failsWriting_infoPlan (image : Image) (type : ColorType) :
    (infoPlan image type).FailsWriting :=
  .andThen (Plan.failsWriting_ofData _ (by decide)) <|
    .andThen (.when _ (Plan.failsWriting_ofNumbers _ (by decide))) <|
    .andThen (.when _ (Plan.failsWriting_ofData _ (by decide))) <|
    .andThen (.when _ (Plan.failsWriting_ofNumbers _ (by decide))) <|
    .when _ (Plan.failsWriting_ofData _ (by decide))

end ScriptedPng.Png
