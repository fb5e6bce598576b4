import ScriptedPng.Proofs.Block.Ahead
import ScriptedPng.Proofs.Block.Failures

/-!
# The grammar of chromaticities

The body of a chromaticity block is a sequence of named points in any order, up to the delimiter
that closes it. All four names must be there; of several points with a name the last one counts, so
points with different names may change places. Until the block has come to its end, the
chromaticities are not given.

## Main definitions

* `Chromaticities.place` — the image with points put in one after the other.
* `Chromaticities.Reordered` — points that differ in the order of different names only.

## Main statements

* `Block.Ahead.chromaticities_eq` — what becomes of chromaticities that are spelled.
* `Block.outcome_points` — what becomes of the points of a body, whatever the source is.
* `Block.chromaticity_grammar` — the chromaticities that are read, and what the others leave behind.
-/

namespace ScriptedPng.Block

open Diagnostic Lexer ScriptedPng.Block.Chromaticities

variable {pieces tokens : List Piece} {last : Lexer} {image : Image} {body : Body}
  {points points' : List (Primary × Point)}

namespace Chromaticities

/-- The image with points put in one after the other. -/
def place (image : Image) (points : List (Primary × Point)) : Image :=
  { image with
    chromaticities := points.foldl (fun found point => found.set point.1 point.2)
      image.chromaticities }

/-- All names are among those of the points. -/
def Complete (points : List (Primary × Point)) : Prop :=
  ∀ which, which ∈ points.map Prod.fst

theorem complete_iff : Primary.all.all (· ∈ (points.map Prod.fst).reverse) = true ↔
    Complete points := by
  have hall (which : Primary) : which ∈ Primary.all := by cases which <;> decide
  simp only [List.all_eq_true, decide_eq_true_eq, List.mem_reverse, Complete]
  grind

end Chromaticities

/-! ## Points that are spelled -/

theorem primary?_name (which : Primary) (line : Nat) :
    primary? ⟨which.name, line, false⟩ = some which := by
  cases which <;> rfl

namespace Ahead

/-- The coordinates of a point are read up to the parenthesis that closes them. -/
theorem readCoordinates {which : Primary} {point : Point}
    (hspelled : Chromaticities.Spelled (which, point) (.bare which.name :: tokens))
    (h : Ahead (tokens ++ pieces) last image body) :
    Succeeds (fun found after => found = point ∧ Ahead pieces last image after)
      (readCoordinates body) := by
  cases hspelled with
  | point hx hy =>
    refine .bind h.require fun _ _ h => .bind (h.doubleConstant hx) ?_
    rintro _ _ ⟨rfl, h⟩
    refine .bind h.require fun _ _ h => .bind (h.doubleConstant hy) ?_
    rintro _ _ ⟨rfl, h⟩
    exact .bind h.require fun _ _ h => ⟨rfl, h⟩

/-- A point takes one round of the loop. -/
theorem point_round {point : Primary × Point} (given : List Primary)
    (hspelled : Chromaticities.Spelled point tokens)
    (h : Ahead (tokens ++ pieces) last image body) :
    Succeeds (fun found middle => ∃ token, found = some token ∧
        Succeeds (fun value after => value = point.1 :: given ∧
          Ahead pieces last (place image [point]) after) (readPoint given token middle))
      (read Lexer.inner body) := by
  obtain ⟨which, point⟩ := point
  obtain ⟨parts, rfl⟩ : ∃ parts, tokens = .bare which.name :: parts := by
    cases hspelled
    exact ⟨_, rfl⟩
  have hopen : which.name ≠ "\x7d" := by cases which <;> decide
  refine (h.inner hopen).mono_post ?_
  rintro _ middle ⟨_, rfl, ⟨line, rfl⟩, hmiddle⟩
  refine ⟨_, rfl, ?_⟩
  simp only [readPoint, primary?_name]
  refine .bind (hmiddle.readCoordinates hspelled) ?_
  rintro _ after ⟨rfl, hafter⟩
  exact ⟨rfl, hafter.trail, congrArg (place · [(which, _)]) hafter.image_eq⟩

/-- The loop goes on behind points. -/
theorem exists_foldItems_points_eq (hspelled : Items Chromaticities.Spelled points tokens)
    (given : List Primary) (h : Ahead (tokens ++ pieces) last image body) :
    ∃ middle, Ahead pieces last (place image points) middle ∧
      foldItems readPoint forward_readPoint given body =
        foldItems readPoint forward_readPoint ((points.map Prod.fst).reverse ++ given) middle := by
  induction hspelled generalizing image given body with
  | nil => exact ⟨body, h, rfl⟩
  | @cons point points parts rest hpoint _ ih =>
    rw [List.append_assoc] at h
    obtain ⟨first, hfirst, heq⟩ :=
      exists_foldItems_eq forward_readPoint (h.point_round given hpoint)
    obtain ⟨middle, hmiddle, hrest⟩ := ih (point.1 :: given) hfirst
    exact ⟨middle, hmiddle, heq.trans (by simpa using hrest)⟩

open Classical in
/-- Chromaticities that are spelled are read to their end, and are looked through then. -/
theorem chromaticities_eq (hspelled : Items Chromaticities.Spelled points tokens)
    (h : Ahead (tokens ++ [.bare "\x7d"]) last image body) :
    chromaticities body = if Complete points
      then .ok () ⟨last, { image with
        chromaticities := ofPoints points, given := { image.given with chromaticities := true } }⟩
      else .error ⟨.incompleteChromaticities, none⟩ ⟨last, place image points⟩ := by
  obtain ⟨middle, hmiddle, heq⟩ := h.exists_foldItems_points_eq hspelled []
  have hloop : Succeeds (fun value after => value = (points.map Prod.fst).reverse ∧
      Ahead [] last (place image points) after)
      (foldItems readPoint forward_readPoint ((points.map Prod.fst).reverse ++ []) middle) :=
    .foldEach_none (hmiddle.inner_close.mono_post fun _ _ h => ⟨h.1, List.append_nil _, h.2⟩)
  rw [← heq] at hloop
  cases hread : foldItems readPoint forward_readPoint [] body with
  | error diagnostic after =>
    rw [hread] at hloop
    exact hloop.elim
  | ok value after =>
    rw [hread] at hloop
    obtain ⟨rfl, hafter⟩ := hloop
    obtain rfl := hafter.body_eq
    rw [chromaticities, bind_of_ok hread]
    by_cases hcomplete : Complete points
    · rw [if_pos (complete_iff.2 hcomplete), if_pos hcomplete, ← ofPoints_eq hcomplete]
      rfl
    · rw [if_neg (mt complete_iff.1 hcomplete), if_neg hcomplete]
      rfl

end Ahead

/-! ## Points of any source -/

theorem raises_readPoint (given : List Primary) (token : Token) :
    Raises (fun _ => True) (readPoint given token) := by
  unfold readPoint
  split
  · exact .throw (.inl (by simp [Cause.category]))
  · have hcoordinates : Raises (fun _ => True) readCoordinates :=
      .bind (raises_require _) fun _ _ => .bind raises_double fun _ _ =>
        .bind (raises_require _) fun _ _ => .bind raises_double fun _ _ =>
        .bind (raises_require _) fun _ _ => .pure trivial
    exact .bind hcoordinates fun _ _ => .bind (raises_change _) fun _ _ => .pure trivial

/-- The points are spelled one after the other, up to the delimiter. Whatever becomes of them, only
the chromaticities change. -/
theorem outcome_points (hplain : Plain body.lexer) :
    Outcome (fun value after => ∃ points tokens, Items Chromaticities.Spelled points tokens ∧
        value = (points.map Prod.fst).reverse ∧
        Went (tokens ++ [.bare "\x7d"]) (place · points) body after)
      (fun diagnostic after => Header.Fault diagnostic ∧
        after.image = { body.image with chromaticities := after.image.chromaticities })
      (foldItems readPoint forward_readPoint [] body) := by
  have hwent := outcome_foldItems_went forward_readPoint
    (fun given token _ => outcome_readPoint_went given token) [] hplain
  have hraises : Raises (fun _ => True) (foldItems readPoint forward_readPoint []) :=
    .foldEach trivial (raises_inner.mono (fun _ _ _ _ => trivial) fun _ h => h)
      fun given token _ _ => raises_readPoint given token
  have hkeeps : Keeps (fun image => image =
      { body.image with chromaticities := image.chromaticities })
      (foldItems readPoint forward_readPoint []) :=
    keeps_foldItems (keeps_readPoint fun image which point himage => by rw [himage]) []
  refine ((hwent.and (hraises body hplain)).and (hkeeps body rfl)).mono ?_ ?_
  · rintro value after ⟨⟨⟨points, tokens, hspelled, rfl, hwent⟩, -⟩, -⟩
    simp only [foldl_points] at hwent
    exact ⟨points, tokens, hspelled, by simp, hwent⟩
  · rintro diagnostic after ⟨⟨-, hfault, -⟩, -, himage⟩
    exact ⟨hfault, himage⟩

/-! ## The order of points -/

/-- The points with each name are the same, in the same order. -/
def Chromaticities.Reordered (points points' : List (Primary × Point)) : Prop :=
  ∀ which, points.filter (·.1 = which) = points'.filter (·.1 = which)

/-- A name is looked up among the points with this name. -/
theorem lookup_filter (which : Primary) (points : List (Primary × Point)) :
    (points.filter (·.1 = which)).lookup which = points.lookup which := by
  induction points with
  | nil => rfl
  | cons point points ih =>
    obtain ⟨name, point⟩ := point
    by_cases hname : name = which
    · simp [hname]
    · have hne : (which == name) = false := by simpa using Ne.symm hname
      simp [hname, List.lookup_cons, hne, ih]

namespace Chromaticities.Reordered

theorem lookup_eq (h : Reordered points points') (which : Primary) :
    points.reverse.lookup which = points'.reverse.lookup which := by
  have hfilter (points : List (Primary × Point)) :
      (points.filter (·.1 = which)).reverse.lookup which = points.reverse.lookup which := by
    rw [← List.filter_reverse, lookup_filter]
  rw [← hfilter, h which, hfilter]

theorem ofPoints_eq (h : Reordered points points') : ofPoints points = ofPoints points' := by
  simp only [ofPoints, h.lookup_eq]

theorem place_eq (h : Reordered points points') (image : Image) :
    place image points = place image points' := by
  have hpoints : points.foldl (fun found point => found.set point.1 point.2)
        image.chromaticities =
      points'.foldl (fun found point => found.set point.1 point.2) image.chromaticities := by
    refine eq_of_get fun which => ?_
    rw [get_foldl_set, get_foldl_set, h.lookup_eq]
  rw [place, hpoints, place]

theorem complete_iff (h : Reordered points points') : Complete points ↔ Complete points' := by
  have hfilter (points : List (Primary × Point)) (which : Primary) :
      which ∈ points.map Prod.fst ↔ points.filter (·.1 = which) ≠ [] := by
    simp [List.filter_eq_nil_iff]
  simp only [Complete, hfilter, h _]

end Chromaticities.Reordered

/-! ## The grammar -/

/-- Chromaticities are read if and only if their tokens are named points in any order up to the
delimiter that closes them, and no name is missing; the last point of each name counts then, and
the chromaticities are given. If only a name is missing, they are incomplete. All others give a
failure of bodies, and whatever fails has changed nothing but the chromaticities themselves. Points
with different names may change places. -/
theorem chromaticity_grammar (hplain : Plain body.lexer) :
    (∀ after, chromaticities body = .ok () after ↔ ∃ points tokens,
        Items Chromaticities.Spelled points tokens ∧ Complete points ∧
        Trail (tokens ++ [.bare "\x7d"]) body.lexer after.lexer ∧
        after.image = { body.image with
          chromaticities := ofPoints points
          given := { body.image.given with chromaticities := true } }) ∧
    (∀ points tokens last, Items Chromaticities.Spelled points tokens → ¬ Complete points →
        Trail (tokens ++ [.bare "\x7d"]) body.lexer last →
        chromaticities body =
          .error ⟨.incompleteChromaticities, none⟩ ⟨last, place body.image points⟩) ∧
    (∀ diagnostic after, chromaticities body = .error diagnostic after →
        after.image = { body.image with chromaticities := after.image.chromaticities } ∧
        (Header.Fault diagnostic ∨ diagnostic = ⟨.incompleteChromaticities, none⟩ ∧
          ∃ points tokens, Items Chromaticities.Spelled points tokens ∧ ¬ Complete points ∧
            Trail (tokens ++ [.bare "\x7d"]) body.lexer after.lexer)) ∧
    ∀ (other : Body) (points points' : List (Primary × Point)) (tokens tokens' : List Piece)
      (last last' : Lexer), other.image = body.image → Reordered points points' →
      Items Chromaticities.Spelled points tokens → Items Chromaticities.Spelled points' tokens' →
      Trail (tokens ++ [.bare "\x7d"]) body.lexer last →
      Trail (tokens' ++ [.bare "\x7d"]) other.lexer last' →
      (ended (chromaticities other)).1 = (ended (chromaticities body)).1 ∧
        (ended (chromaticities other)).2.image = (ended (chromaticities body)).2.image := by
  have hpoints := outcome_points hplain
  refine ⟨fun after => ⟨fun h => ?_, ?_⟩, ?_, fun diagnostic after h => ?_, ?_⟩
  · cases hread : foldItems readPoint forward_readPoint [] body with
    | error diagnostic middle =>
      rw [chromaticities, bind_of_error hread] at h
      cases h
    | ok value middle =>
      rw [hread] at hpoints
      obtain ⟨points, tokens, hspelled, rfl, hwent⟩ := hpoints
      rw [chromaticities, bind_of_ok hread] at h
      split at h
      · have hcomplete : Complete points := complete_iff.1 ‹_›
        cases h
        exact ⟨points, tokens, hspelled, hcomplete, hwent.trail, by
          rw [hwent.image_eq, ← ofPoints_eq hcomplete body.image.chromaticities]; rfl⟩
      · cases h
  · rintro ⟨points, tokens, hspelled, hcomplete, htrail, himage⟩
    have hahead : Ahead (tokens ++ [.bare "\x7d"]) after.lexer body.image body := ⟨htrail, rfl⟩
    rw [hahead.chromaticities_eq hspelled, if_pos hcomplete, ← himage]
  · intro points tokens last hspelled hcomplete htrail
    have hahead : Ahead (tokens ++ [.bare "\x7d"]) last body.image body := ⟨htrail, rfl⟩
    rw [hahead.chromaticities_eq hspelled, if_neg hcomplete]
  · cases hread : foldItems readPoint forward_readPoint [] body with
    | error cause middle =>
      rw [hread] at hpoints
      obtain ⟨hfault, himage⟩ := hpoints
      rw [chromaticities, bind_of_error hread] at h
      cases h
      exact ⟨himage, .inl hfault⟩
    | ok value middle =>
      rw [hread] at hpoints
      obtain ⟨points, tokens, hspelled, rfl, hwent⟩ := hpoints
      rw [chromaticities, bind_of_ok hread] at h
      split at h
      · cases h
      · have hcomplete : ¬ Complete points := mt complete_iff.2 ‹_›
        cases h
        exact ⟨by rw [hwent.image_eq]; rfl, .inr ⟨rfl, points, tokens, hspelled, hcomplete,
          hwent.trail⟩⟩
  · intro other points points' tokens tokens' last last' himage hreordered hspelled hspelled'
      htrail htrail'
    have hahead : Ahead (tokens ++ [.bare "\x7d"]) last body.image body := ⟨htrail, rfl⟩
    have hother : Ahead (tokens' ++ [.bare "\x7d"]) last' body.image other := ⟨htrail', himage⟩
    rw [hahead.chromaticities_eq hspelled, hother.chromaticities_eq hspelled',
      hreordered.ofPoints_eq, hreordered.place_eq]
    by_cases hcomplete : Complete points
    · rw [if_pos hcomplete, if_pos (hreordered.complete_iff.1 hcomplete)]
      exact ⟨rfl, rfl⟩
    · rw [if_neg hcomplete, if_neg (mt hreordered.complete_iff.2 hcomplete)]
      exact ⟨rfl, rfl⟩

/-- Chromaticities in which a point is replaced by a later one. -/
theorem chromaticity_grammar_replaced :
    let body : Body := { lexer := .ofSource (.ofChars
      "red (9,9) blue (0.15,0.06) white (0.31, 0.33) green ('3e-1',0.6) red (0.64,0.33)\x7d".toList) }
    ∃ points tokens, Items Chromaticities.Spelled points tokens ∧ Complete points ∧
      Trail (tokens ++ [.bare "\x7d"]) body.lexer (ended (chromaticities body)).2.lexer ∧
      (ended (chromaticities body)).2.image.chromaticities = ofPoints points := by
  intro body
  have hplain : Plain body.lexer := ⟨_, resumes_ofChars _⟩
  have hended : (ended (chromaticities body)).1 = .ok () := by decide +kernel
  have hgrammar := (chromaticity_grammar hplain).1 (ended (chromaticities body)).2
  obtain ⟨points, tokens, hspelled, hcomplete, htrail, himage⟩ := hgrammar.1 <| by
    cases hresult : chromaticities body with
    | ok _ after => rfl
    | error diagnostic after => simp [hresult, ended] at hended
  exact ⟨points, tokens, hspelled, hcomplete, htrail, by rw [himage]⟩

end ScriptedPng.Block
