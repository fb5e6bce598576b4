import ScriptedPng.Proofs.Block.Content
import ScriptedPng.Proofs.Png.Progress

/-!
# The chunks before the pixel data

If the plan of the chunks before the pixel data comes to a good end, it consists of the header and
of one chunk for each property given, in a fixed order. A gamma and the coordinates of points are
stored in fixed-point form, a rendering intent as an octet, and a palette as its entries.

## Main definitions

* `Png.IsFixed` — the octets of a number in fixed-point form.
* `Png.infoChunks` — the chunks with the given data.
* `Png.Holds` — the data of a property that may be given.

## Main statements

* `Png.chunks_infoPlan` — the chunks of an image, with their data.
-/

namespace ScriptedPng.Png

open Record

/-! ## Numbers in fixed-point form -/

/-- The octets of a number in fixed-point form, which has to fit four of them. -/
def IsFixed (value : Double) (octets : Octets) : Prop :=
  ∃ n : Nat, FixedPoint.ofDouble value = .ok n ∧ n < UInt32.size ∧ octets = Octets.big 4 n

/-- A number that is stored without a sign is not negative, and fits. -/
theorem exists_of_raw_unsigned {width : Nat} {n : Int} {octets : Octets}
    (h : (numberField ⟨width, false⟩ (.integer n)).raw = .ok octets) :
    ∃ k : Nat, n = k ∧ k < Nat.pow 256 width ∧ octets = Octets.big width k := by
  have hraw : numberRaw ⟨width, false⟩ .big none (.integer n) = .ok octets := h
  cases n with
  | ofNat k =>
    have hnumber := (numberRaw_unsigned width k).symm.trans hraw
    split at hnumber <;> cases hnumber
    exact ⟨k, rfl, ‹_›, rfl⟩
  | negSucc k =>
    have hnot : ¬ (⟨width, false⟩ : IntegerFormat).Fits (Int.negSucc k) := fun hfits => by
      have hle : (0 : Int) ≤ Int.negSucc k := hfits.1
      omega
    unfold numberRaw at hraw
    simp [IntegerFormat.encode?, hnot] at hraw

theorem isFixed_of_raw {value : Double} {n : Int} {octets : Octets}
    (hvalue : FixedPoint.ofDouble value = .ok n)
    (h : (numberField wordFormat (.integer n)).raw = .ok octets) : IsFixed value octets := by
  obtain ⟨k, rfl, hlt, rfl⟩ := exists_of_raw_unsigned h
  exact ⟨k, hvalue, hlt, rfl⟩

/-- Numbers that are stored one after the other. -/
theorem items_isFixed {values : List Double} {numbers : List Int} {parts : List Octets}
    (hvalues : values.mapM FixedPoint.ofDouble = .ok numbers)
    (h : collect (numbers.map fun n => (numberField wordFormat (.integer n)).raw) = .ok parts) :
    Items IsFixed values parts.flatten := by
  induction values generalizing numbers parts with
  | nil =>
    cases hvalues
    cases h
    exact .nil
  | cons value values ih =>
    rw [List.mapM_cons] at hvalues
    cases hvalue : FixedPoint.ofDouble value with
    | error fault => simp [hvalue, bind, Except.bind] at hvalues
    | ok n =>
      cases hrest : values.mapM FixedPoint.ofDouble with
      | error fault => simp [hvalue, hrest, bind, Except.bind] at hvalues
      | ok others =>
        obtain rfl : n :: others = numbers := by
          simpa [hvalue, hrest, bind, Except.bind, pure, Except.pure] using hvalues
        rw [List.map_cons] at h
        cases hraw : (numberField wordFormat (.integer n)).raw with
        | error fault => simp [hraw] at h
        | ok octets =>
          rw [hraw, collect_ok_cons] at h
          cases hmore : collect (others.map fun n => (numberField wordFormat (.integer n)).raw) with
          | error fault => simp [hmore, Except.map] at h
          | ok more =>
            obtain rfl : octets :: more = parts := by simpa [hmore, Except.map] using h
            exact .cons (isFixed_of_raw hvalue hraw) (ih hrest hmore)

/-- The coordinates of a record of chromaticities are stored one after the other. -/
theorem raw_chromaticityRecord {numbers : List Int} (h : numbers.length = 8) :
    (chromaticityRecord numbers).raw =
      (collect (numbers.map fun n => (numberField wordFormat (.integer n)).raw)).map
        List.flatten := by
  have hnumbers : coordinateNames.length =
      (numbers.map fun n => numberField wordFormat (.integer n)).length := by
    rw [List.length_map, h]
    rfl
  have hnames : (chromaticityFields numbers).map Prod.fst = coordinateNames :=
    List.map_fst_zip (Nat.le_of_eq hnumbers)
  have hfields : (chromaticityFields numbers).map (fun entry => entry.2.raw) =
      numbers.map fun n => (numberField wordFormat (.integer n)).raw := by
    have hzip := List.map_snd_zip (Nat.le_of_eq hnumbers.symm)
    calc (chromaticityFields numbers).map (fun entry => entry.2.raw)
        = ((chromaticityFields numbers).map Prod.snd).map Field.raw := by rw [List.map_map]; rfl
      _ = numbers.map fun n => (numberField wordFormat (.integer n)).raw := by
          rw [chromaticityFields, hzip, List.map_map]
          rfl
  rw [chromaticityRecord, raw_leafRecord (hnames ▸ words_not_mem_coordinateNames), hfields]

theorem items_of_raw_chromaticities {values : List Double} {numbers : List Int} {octets : Octets}
    (hlength : values.length = 8) (hvalues : values.mapM FixedPoint.ofDouble = .ok numbers)
    (h : (chromaticityRecord numbers).raw = .ok octets) : Items IsFixed values octets := by
  rw [raw_chromaticityRecord ((Writer.length_of_mapM_fixedPoint hvalues).trans hlength)] at h
  cases hparts : collect (numbers.map fun n => (numberField wordFormat (.integer n)).raw) with
  | error fault => simp [hparts, Except.map] at h
  | ok parts =>
    obtain rfl : parts.flatten = octets := by simpa [hparts, Except.map] using h
    exact items_isFixed hvalues hparts

/-! ## Plans that come to a good end -/

namespace Plan

variable {plan next : Plan}

theorem result_andThen :
    (plan.andThen next).result = .ok () ↔ plan.result = .ok () ∧ next.result = .ok () := by
  obtain ⟨chunks, result⟩ := plan
  cases result <;> simp [andThen]

theorem chunks_andThen (h : plan.result = .ok ()) :
    (plan.andThen next).chunks = plan.chunks ++ next.chunks := by
  simp [andThen, h]

theorem exists_of_ofData {type : Octets} {data : Field} (h : (ofData type data).result = .ok ()) :
    ∃ octets, data.raw = .ok octets ∧ (ofData type data).chunks = [⟨type, octets⟩] := by
  cases hchunk : chunk? type data with
  | none =>
    rw [ofData, hchunk] at h
    cases h
  | some chunk =>
    obtain ⟨found, octets⟩ := chunk
    obtain ⟨hraw, -, rfl⟩ := chunk?_eq_some.1 hchunk
    exact ⟨octets, hraw, by rw [ofData, hchunk]⟩

theorem exists_of_ofNumbers {type : Octets} {data : Except Double.NoInteger Field}
    (h : (ofNumbers type data).result = .ok ()) :
    ∃ field octets, data = .ok field ∧ field.raw = .ok octets ∧
      (ofNumbers type data).chunks = [⟨type, octets⟩] := by
  cases data with
  | error fault => cases h
  | ok field =>
    obtain ⟨octets, hraw, hchunks⟩ := exists_of_ofData h
    exact ⟨field, octets, rfl, hraw, hchunks⟩

end Plan

/-! ## The chunks and their data -/

/-- The chunk of a type, if it has data. -/
def optionalChunk (type : Octets) (data : Option Octets) : List Chunk :=
  data.toList.map fun octets => ⟨type, octets⟩

/-- The chunks before the pixel data: the header, and those of the properties that have data. -/
def infoChunks (header : Header) (gamma intent chromaticities palette : Option Octets) :
    List Chunk :=
  ⟨headerType, header.octets⟩ ::
    (optionalChunk gammaType gamma ++ (optionalChunk intentType intent ++
      (optionalChunk chromaticityType chromaticities ++ optionalChunk paletteType palette)))

/-- There are data just if the property is given, and then they are as they should be. -/
def Holds (given : Bool) (property : Octets → Prop) (data : Option Octets) : Prop :=
  data.isSome = given ∧ ∀ octets ∈ data, property octets

/-- A chunk that is planned only for a property given. -/
theorem exists_of_when {given : Bool} {plan : Plan} {type : Octets} {property : Octets → Prop}
    (hresult : (Plan.when given plan).result = .ok ())
    (h : plan.result = .ok () → ∃ octets, property octets ∧ plan.chunks = [⟨type, octets⟩]) :
    ∃ data, Holds given property data ∧
      (Plan.when given plan).chunks = optionalChunk type data := by
  cases given with
  | false => exact ⟨none, ⟨rfl, by simp⟩, rfl⟩
  | true =>
    obtain ⟨octets, hproperty, hchunks⟩ := h hresult
    exact ⟨some octets, ⟨rfl, by simpa using hproperty⟩, hchunks⟩

/-- The octet of the rendering intent of an image. -/
def IsIntent (image : Image) (octets : Octets) : Prop :=
  ∃ number : Nat, image.intent = some (number : Int) ∧ octets = [UInt8.ofNat number]

theorem isIntent_of_raw {image : Image} {octets : Octets}
    (h : (intentData image).raw = .ok octets) : IsIntent image octets := by
  cases hintent : image.intent with
  | none =>
    rw [intentData, hintent] at h
    cases h
  | some n =>
    rw [intentData, hintent] at h
    obtain ⟨number, rfl, -, rfl⟩ := exists_of_raw_unsigned h
    exact ⟨number, hintent, by simp [Octets.big]⟩

/-- The chunks before the pixel data of an image that can be written, with their data. -/
theorem chunks_infoPlan {image : Image} {header : Header} (hof : header.Of image)
    (h : (infoPlan image header.type).result = .ok ()) :
    ∃ gamma intent chromaticities palette,
      (infoPlan image header.type).chunks =
        infoChunks header gamma intent chromaticities palette ∧
      Holds image.given.gamma (IsFixed image.gamma) gamma ∧
      Holds image.given.intent (IsIntent image) intent ∧
      Holds image.given.chromaticities (Items IsFixed image.chromaticities.coordinates)
        chromaticities ∧
      Holds image.given.palette (· = paletteOctets image.palette) palette := by
  simp only [infoPlan, Plan.result_andThen] at h
  obtain ⟨hheader, hgamma, hintent, hchromaticities, hpalette⟩ := h
  obtain ⟨gamma, hgammas, hgammaChunks⟩ := exists_of_when hgamma fun hresult => by
    obtain ⟨field, octets, hdata, hraw, hchunks⟩ := Plan.exists_of_ofNumbers hresult
    refine ⟨octets, ?_, hchunks⟩
    simp only [gammaData] at hdata
    cases hvalue : FixedPoint.ofDouble image.gamma with
    | error fault => simp [hvalue, Except.map] at hdata
    | ok n =>
      obtain rfl : numberField wordFormat (.integer n) = field := by
        simpa [hvalue, Except.map] using hdata
      exact isFixed_of_raw hvalue hraw
  obtain ⟨intent, hintents, hintentChunks⟩ := exists_of_when hintent fun hresult => by
    obtain ⟨octets, hraw, hchunks⟩ := Plan.exists_of_ofData hresult
    exact ⟨octets, isIntent_of_raw hraw, hchunks⟩
  obtain ⟨chromaticities, hpoints, hpointChunks⟩ := exists_of_when hchromaticities fun hresult => by
    obtain ⟨field, octets, hdata, hraw, hchunks⟩ := Plan.exists_of_ofNumbers hresult
    refine ⟨octets, ?_, hchunks⟩
    simp only [chromaticityData] at hdata
    cases hvalues : image.chromaticities.coordinates.mapM FixedPoint.ofDouble with
    | error fault => simp [hvalues, Except.map] at hdata
    | ok numbers =>
      obtain rfl : chromaticityRecord numbers = field := by
        simpa [hvalues, Except.map] using hdata
      exact items_of_raw_chromaticities rfl hvalues hraw
  obtain ⟨palette, hentries, hentryChunks⟩ := exists_of_when hpalette fun hresult => by
    obtain ⟨octets, hraw, hchunks⟩ := Plan.exists_of_ofData hresult
    rw [raw_paletteArray hof.palette] at hraw
    exact ⟨octets, (Except.ok.inj hraw).symm, hchunks⟩
  obtain ⟨octets, hraw, hheaderChunks⟩ := Plan.exists_of_ofData hheader
  rw [hof.width, hof.height, hof.bitDepth, hof.interlace, raw_headerRecord hof.legal] at hraw
  obtain rfl := Except.ok.inj hraw
  refine ⟨gamma, intent, chromaticities, palette, ?_, hgammas, hintents, hpoints, hentries⟩
  rw [infoPlan, Plan.chunks_andThen hheader, Plan.chunks_andThen hgamma,
    Plan.chunks_andThen hintent, Plan.chunks_andThen hchromaticities, hheaderChunks, hgammaChunks,
    hintentChunks, hpointChunks, hentryChunks]
  rfl

end ScriptedPng.Png
