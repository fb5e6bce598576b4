import ScriptedPng.Proofs.Png.Info

/-!
# Images that can be stored

All chunks of an image with a legal header can be written, provided that the numbers that have been
given fit: gamma and chromaticities four octets in fixed-point form, and the rendering intent one
octet. The numbers of the header and the palette fit in any case.

## Main definitions

* `Png.FitsWord` — a number fits four octets in fixed-point form.
* `Png.NumbersFit` — the gamma and the chromaticities fit, if they are given.

## Main statements

* `Png.result_infoPlan` — all chunks before the pixel data can be written.
-/

namespace ScriptedPng.Png

open Record

/-- The number fits four octets in fixed-point form. -/
def FitsWord (value : Double) : Prop := ∃ octets, IsFixed value octets

/-- The gamma and the chromaticities fit, if they are given. -/
structure NumbersFit (image : Image) : Prop where
  gamma : image.given.gamma = true → FitsWord image.gamma
  chromaticities : image.given.chromaticities = true →
    ∀ value ∈ image.chromaticities.coordinates, FitsWord value

/-- The rendering intent is an octet, if one is given. -/
def IntentFits (image : Image) : Prop :=
  image.given.intent = true → ∃ n : Nat, image.intent = some (n : Int) ∧ n < 256

variable {image : Image} {header : Header}

/-! ## The data of the chunks -/

theorem result_ofData_of_raw {type octets : Octets} {data : Field} (hraw : data.raw = .ok octets)
    (hlength : octets.length < UInt32.size) : (Plan.ofData type data).result = .ok () := by
  rw [Plan.ofData_of_raw hraw hlength]

theorem result_when {given : Bool} {plan : Plan} (h : given = true → plan.result = .ok ()) :
    (Plan.when given plan).result = .ok () := by
  cases given with
  | false => rfl
  | true => exact h rfl

theorem result_gamma (h : FitsWord image.gamma) :
    (Plan.ofNumbers gammaType (gammaData image)).result = .ok () := by
  obtain ⟨_, n, hvalue, hlt, rfl⟩ := h
  simp only [gammaData, hvalue, Except.map, Plan.ofNumbers]
  exact result_ofData_of_raw (raw_wordField n hlt) (by rw [Octets.length_big]; decide)

/-- Numbers that fit are stored one after the other. -/
theorem exists_collect {values : List Double} (h : ∀ value ∈ values, FitsWord value) :
    ∃ numbers parts, values.mapM FixedPoint.ofDouble = .ok numbers ∧
      collect (numbers.map fun n => (numberField wordFormat (.integer n)).raw) = .ok parts := by
  induction values with
  | nil => exact ⟨[], [], rfl, rfl⟩
  | cons value values ih =>
    obtain ⟨⟨octets, n, hvalue, hlt, rfl⟩, hvalues⟩ := List.forall_mem_cons.1 h
    obtain ⟨numbers, parts, hnumbers, hparts⟩ := ih hvalues
    refine ⟨n :: numbers, Octets.big 4 n :: parts, ?_, ?_⟩
    · rw [List.mapM_cons, hvalue, hnumbers]
      rfl
    · rw [List.map_cons, raw_wordField n hlt, collect_ok_cons, hparts]
      rfl

theorem result_chromaticities (h : ∀ value ∈ image.chromaticities.coordinates, FitsWord value) :
    (Plan.ofNumbers chromaticityType (chromaticityData image)).result = .ok () := by
  obtain ⟨numbers, parts, hnumbers, hparts⟩ := exists_collect h
  have hlength : numbers.length = 8 := Writer.length_of_mapM_fixedPoint hnumbers
  have hraw : (chromaticityRecord numbers).raw = .ok parts.flatten := by
    rw [raw_chromaticityRecord hlength, hparts]
    rfl
  -- The size of the record is that of eight numbers, whatever they are.
  have hsize := (steady_chromaticityRecord numbers).size_of_raw hraw
  rw [size_chromaticityRecord hlength, Except.ok.injEq] at hsize
  rw [chromaticityData, hnumbers]
  exact result_ofData_of_raw hraw (by rw [← hsize]; decide)

theorem result_intent {n : Nat} (h : image.intent = some (n : Int)) (hlt : n < 256) :
    (Plan.ofData intentType (intentData image)).result = .ok () := by
  rw [intentData, h]
  exact result_ofData_of_raw (raw_byteField n hlt) (show 1 < UInt32.size by decide)

theorem result_palette (hof : header.Of image) (htype : header.type = .indexed) :
    (Plan.ofData paletteType (paletteArray image.palette)).result = .ok () := by
  obtain ⟨-, hmem, hpalette, -⟩ := checkHeader_eq_ok hof.checked
  have hdepths : ∀ depth ∈ ColorType.indexed.bitDepths, 1 <<< depth.toNat ≤ 256 := by decide
  have hlength := hpalette htype
  have hlimit := hdepths image.bitDepth (htype ▸ hmem)
  refine result_ofData_of_raw (raw_paletteArray hof.palette) ?_
  rw [length_paletteOctets, UInt32.size]
  omega

/-- All chunks before the pixel data can be written. -/
theorem result_infoPlan (hof : header.Of image) (hnumbers : NumbersFit image)
    (hintent : IntentFits image)
    (hpalette : image.given.palette = true → image.color.palette = true) :
    (infoPlan image header.type).result = .ok () := by
  have hcolor := (checkHeader_eq_ok hof.checked).1
  simp only [infoPlan, Plan.result_andThen]
  refine ⟨?_, result_when fun hgiven => result_gamma (hnumbers.gamma hgiven),
    result_when fun hgiven => ?_,
    result_when fun hgiven => result_chromaticities (hnumbers.chromaticities hgiven),
    result_when fun hgiven => ?_⟩
  · rw [hof.width, hof.height, hof.bitDepth, hof.interlace]
    exact result_ofData_of_raw (raw_headerRecord hof.legal) (by simp [Header.octets]; decide)
  · obtain ⟨n, hn, hlt⟩ := hintent hgiven
    exact result_intent hn hlt
  · exact result_palette hof ((palette_iff_of_colorType? hcolor).1 (hpalette hgiven))

end ScriptedPng.Png
