import ScriptedPng.Proofs.Block.Alike
import ScriptedPng.Proofs.Block.Content

/-!
# Blocks in front of other pieces

The pieces of a content make one block, whatever comes behind it. If a body is in front of the
pieces of a gamma or of chromaticities, then these are read and added to the description.

## Main definitions

* `Piece.Inner` — a piece that does not end its block.
* `Block.Faces` — a body in front of pieces.

## Main statements

* `Block.Content.Spelled.within`, `Block.fits_of_items` — where the pieces of contents stand.
* `Block.Faces.gamma`, `Block.Faces.chromaticities` — bodies read what is spelled in front of them.
-/

namespace ScriptedPng

/-- A token that does not close the block that it stands in. -/
inductive Piece.Inner : Piece → Prop
  | token {text : String} {quoted : Bool} (h : ¬ (quoted = false ∧ text = "\x7d")) :
      Inner (.token text quoted)

theorem Piece.Inner.bare {text : String} (h : text ≠ "\x7d") : Inner (.bare text) :=
  .token fun his => h his.2

theorem Items.forall_mem {α β : Type} {spelled : α → List β → Prop} {p : β → Prop}
    {items : List α} {parts : List β} (h : Items spelled items parts)
    (hitem : ∀ item parts, spelled item parts → ∀ part ∈ parts, p part) :
    ∀ part ∈ parts, p part := by
  induction h with
  | nil => simp
  | cons hspelled _ ih => exact List.forall_mem_append.2 ⟨hitem _ _ hspelled, ih⟩

/-- What can stand after the block can stand in front of it together with the block. -/
theorem Within.fits {rel : List Piece → List Piece → Prop} {place : Place}
    {pieces pieces' : List Piece} (h : Within rel place pieces pieces')
    (hrel : ∀ pieces pieces', rel pieces pieces' → Fits .outside pieces) : Fits place pieces := by
  induction h with
  | past h => exact hrel _ _ h
  | done _ hsegment => exact .done hsegment
  | token _ hsegment _ ih => exact .token hsegment ih
  | segment h => exact .segment (hrel _ _ h)
  | openSegment => exact .openSegment

theorem Primary.ofName?_name (which : Primary) : ofName? which.name = some which := by
  cases which <;> rfl

namespace Block

open Diagnostic

/-! ## Where pieces stand -/

theorem IsInteger.inner {limit value : Nat} {text : String} (h : IsInteger limit text value)
    (quoted : Bool) : Piece.Inner (.token text quoted) :=
  .token fun his => not_parse_close value (his.2 ▸ h.1)

theorem IsDouble.inner {value : Double} {text : String} (h : IsDouble text value) (quoted : Bool) :
    Piece.Inner (.token text quoted) := by
  refine .token ?_
  rintro ⟨-, rfl⟩
  rw [IsDouble, parse?_close] at h
  cases h.1

theorem Header.Setting.Spelled.inner {setting : Header.Setting} {pieces : List Piece}
    (h : setting.Spelled pieces) : ∀ piece ∈ pieces, piece.Inner := by
  have hword {text : String} (htext : text ≠ "\x7d") := Piece.Inner.bare htext
  cases h with
  | height h | width h | bitDepth h => simp [hword, h.inner]
  | filler h => rcases h with rfl | rfl <;> simp [hword]
  | _ => simp [hword]

theorem Palette.Spelled.inner {entry : Rgb} {pieces : List Piece}
    (h : Palette.Spelled entry pieces) : ∀ piece ∈ pieces, piece.Inner := by
  have hmark {text : String} (htext : text ≠ "\x7d") := Piece.Inner.bare htext
  cases h with
  | entry hred hgreen hblue => simp [hmark, hred.inner, hgreen.inner, hblue.inner]

theorem Chromaticities.Spelled.inner {point : Primary × Point} {pieces : List Piece}
    (h : Chromaticities.Spelled point pieces) : ∀ piece ∈ pieces, piece.Inner := by
  have hmark {text : String} (htext : text ≠ "\x7d") := Piece.Inner.bare htext
  cases h with
  | @point which _ _ _ _ _ _ hx hy =>
    have hname : which.name ≠ "\x7d" := by cases which <;> decide
    simp [hmark, hname, hx.inner, hy.inner]

variable {rel : List Piece → List Piece → Prop} {tokens pieces rest rest' : List Piece}
  {blocks : List Content} {content : Content}

theorem within_inner (h : ∀ piece ∈ tokens, piece.Inner) (hrel : rel rest rest') :
    Within rel .inside (tokens ++ .bare "\x7d" :: rest) (tokens ++ .bare "\x7d" :: rest') := by
  induction tokens with
  | nil => exact .token (by simp) (by simp) (.past hrel)
  | cons piece tokens ih =>
    obtain ⟨⟨hopen⟩, hinner⟩ := List.forall_mem_cons.1 h
    refine .token (by simp) (by simp) ?_
    rw [show Place.inside.after _ _ = .inside from if_neg hopen]
    exact ih hinner

/-- The pieces of a content are a keyword and what stands after it, up to the end of the block. -/
theorem Content.Spelled.within (h : content.Spelled pieces) :
    ∃ tail, pieces = .bare content.keyword.name :: tail ∧ ∀ (rel : List Piece → List Piece → Prop)
      (rest rest' : List Piece), rel rest rest' →
        Within rel (.opening (Place.IsData content.keyword.name false)) (tail ++ rest)
          (tail ++ rest') := by
  have hframed {keyword : Keyword} {tokens : List Piece}
      (hdata : decide (Place.IsData keyword.name false) = false)
      (hinner : ∀ piece ∈ tokens, piece.Inner) : ∃ tail,
        framed keyword tokens = .bare keyword.name :: tail ∧
        ∀ (rel : List Piece → List Piece → Prop) (rest rest' : List Piece), rel rest rest' →
          Within rel (.opening (Place.IsData keyword.name false)) (tail ++ rest)
            (tail ++ rest') := by
    refine ⟨_, rfl, fun rel rest rest' hrel => ?_⟩
    have htokens := within_inner hinner hrel
    rw [List.append_cons tokens, List.append_cons tokens _ rest'] at htokens
    rw [hdata]
    exact .token (by simp) (by simp) htokens
  cases h with
  | header h => exact hframed (by decide) (h.forall_mem fun _ _ h => h.inner)
  | palette h => exact hframed (by decide) (h.forall_mem fun _ _ h => h.inner)
  | chromaticities h => exact hframed (by decide) (h.forall_mem fun _ _ h => h.inner)
  | gamma h => exact hframed (by decide) (by simp [h.inner])
  | intent h => exact hframed (by decide) (by simp [h.inner])
  | data | pixels =>
    exact ⟨_, rfl, fun rel rest rest' hrel => .token (by simp) (by simp) (.segment hrel)⟩

/-- The body is in front of the pieces, with the image as the description. -/
structure Faces (pieces : List Piece) (image : Image) (body : Body) : Prop where
  shows : Lexer.Shows pieces body.lexer
  fault : body.lexer.source.fault = none
  image_eq : body.image = image

namespace Faces

variable {image : Image} {body : Body} {text : String} {quoted : Bool}

theorem next (h : Faces (.token text quoted :: pieces) image body) :
    Succeeds (fun found after => (∃ line, found = some ⟨text, line, quoted⟩) ∧
      Faces pieces image after) (read Lexer.next body) := by
  refine (succeeds_read (Lexer.succeeds_next_token h.shows h.fault)).mono_post ?_
  rintro found after ⟨himage, hfound, hshows, hfault⟩
  exact ⟨hfound, hshows, hfault, himage.trans h.image_eq⟩

theorem require (h : Faces (.bare text :: pieces) image body) :
    Succeeds (fun _ after => Faces pieces image after) (read (Lexer.require text) body) :=
  succeeds_require_of_next h.next

theorem inner (h : Faces (.bare text :: pieces) image body) (hopen : text ≠ "\x7d") :
    Succeeds (fun found after => ∃ token, found = some token ∧
      (∃ line, token = ⟨text, line, false⟩) ∧ Faces pieces image after)
      (read Lexer.inner body) :=
  succeeds_inner_of_next h.next hopen

theorem inner_close (h : Faces (.bare "\x7d" :: pieces) image body) :
    Succeeds (fun found after => found = none ∧ Faces pieces image after)
      (read Lexer.inner body) :=
  succeeds_inner_close_of_next h.next

theorem close (h : Faces (.bare "\x7d" :: pieces) image body) (keyword : String) :
    Succeeds (fun _ after => Faces pieces image after) (close keyword body) := by
  refine .bind h.next ?_
  rintro _ after ⟨⟨line, rfl⟩, hafter⟩
  exact hafter

theorem double {value : Double} (h : Faces (.token text quoted :: pieces) image body)
    (hvalue : IsDouble text value) :
    Succeeds (fun found after => found = value ∧ Faces pieces image after)
      (readConstant double body) := by
  refine .bind h.next ?_
  rintro _ after ⟨⟨line, rfl⟩, hafter⟩
  obtain ⟨hparse, hrange⟩ := hvalue
  simp only [Block.double, hparse, if_pos hrange]
  exact ⟨rfl, hafter⟩

theorem change (h : Faces pieces image body) (f : Image → Image) :
    Succeeds (fun _ after => Faces pieces (f image) after) (change f body) :=
  ⟨h.shows, h.fault, congrArg f h.image_eq⟩

/-! ## Bodies -/

/-- The gamma that is spelled is read. -/
theorem gamma {value : Double}
    (h : Faces (.token text quoted :: .bare "\x7d" :: pieces) image body)
    (hvalue : IsDouble text value) :
    Succeeds (fun _ after => Faces pieces (Content.apply image (.gamma value)) after)
      (gamma body) := by
  refine .bind (h.double hvalue) ?_
  rintro _ read ⟨rfl, hread⟩
  refine .bind (hread.change _) fun _ changed hchanged => ?_
  exact .bind (hchanged.close _) fun _ closed hclosed => hclosed.change fun image =>
    { image with given := { image.given with gamma := true } }

theorem readCoordinates {text' : String} {quoted' : Bool} {x y : Double}
    (h : Faces (.bare "(" :: .token text quoted :: .bare "," :: .token text' quoted' ::
      .bare ")" :: pieces) image body) (hx : IsDouble text x) (hy : IsDouble text' y) :
    Succeeds (fun found after => found = ⟨x, y⟩ ∧ Faces pieces image after)
      (Chromaticities.readCoordinates body) := by
  refine .bind h.require fun _ _ h => .bind (h.double hx) ?_
  rintro _ _ ⟨rfl, h⟩
  refine .bind h.require fun _ _ h => .bind (h.double hy) ?_
  rintro _ _ ⟨rfl, h⟩
  exact .bind h.require fun _ _ h => ⟨rfl, h⟩

theorem readPoint {which : Primary} {text' : String} {quoted' : Bool} {x y : Double}
    (h : Faces (.bare "(" :: .token text quoted :: .bare "," :: .token text' quoted' ::
      .bare ")" :: pieces) image body) (hx : IsDouble text x) (hy : IsDouble text' y)
    (given : List Primary) (line : Nat) :
    Succeeds (fun found after => found = which :: given ∧
        Faces pieces { image with chromaticities := image.chromaticities.set which ⟨x, y⟩ } after)
      (Chromaticities.readPoint given ⟨which.name, line, false⟩ body) := by
  have hname : Chromaticities.primary? ⟨which.name, line, false⟩ = some which :=
    Primary.ofName?_name which
  simp only [Chromaticities.readPoint, hname]
  refine .bind (h.readCoordinates hx hy) ?_
  rintro _ read ⟨rfl, hread⟩
  exact .bind (hread.change _) fun _ changed hchanged => ⟨rfl, hchanged⟩

/-- The points that are spelled are put in one after the other, up to the end of the block. -/
theorem points {points : List (Primary × Point)}
    (hspelled : Items Chromaticities.Spelled points tokens)
    (h : Faces (tokens ++ .bare "\x7d" :: pieces) image body) (given : List Primary) :
    Succeeds (fun found after => (∀ which, which ∈ found ↔
          which ∈ given ∨ which ∈ points.map Prod.fst) ∧
        Faces pieces
          { image with
            chromaticities :=
              points.foldl (fun found point => found.set point.1 point.2) image.chromaticities }
          after)
      (foldItems Chromaticities.readPoint Chromaticities.forward_readPoint given body) := by
  induction hspelled generalizing image body given with
  | nil => exact .foldEach_none (h.inner_close.mono_post fun _ _ h => ⟨h.1, by simp, h.2⟩)
  | @cons point points parts tokens hpoint _ ih =>
    cases hpoint with
    | @point which text text' quoted quoted' x y hx hy =>
      have hname : which.name ≠ "\x7d" := by cases which <;> decide
      refine .foldEach_some (fun found => fun after => found = which :: given ∧
        Faces (tokens ++ .bare "\x7d" :: pieces)
          { image with chromaticities := image.chromaticities.set which ⟨x, y⟩ } after)
        (h.inner hname) ?_ ?_
      · rintro _ state ⟨⟨line, rfl⟩, hstate⟩
        exact hstate.readPoint hx hy given line
      · rintro _ state ⟨rfl, hstate⟩
        refine (ih hstate (which :: given)).mono_post ?_
        rintro found after ⟨hfound, hafter⟩
        refine ⟨fun other => ?_, hafter⟩
        simp only [hfound, List.map_cons, List.mem_cons, or_assoc, or_left_comm]

/-- The chromaticities that are spelled are read. -/
theorem chromaticities {points : List (Primary × Point)}
    (hspelled : Items Chromaticities.Spelled points tokens)
    (hall : ∀ which, which ∈ points.map Prod.fst)
    (h : Faces (tokens ++ .bare "\x7d" :: pieces) image body) :
    Succeeds (fun _ after => Faces pieces (Content.apply image (.chromaticities points)) after)
      (chromaticities body) := by
  refine .bind (h.points hspelled []) ?_
  rintro found read ⟨hfound, hread⟩
  have hcomplete : Primary.all.all (· ∈ found) = true := by
    simp only [List.all_eq_true, decide_eq_true_eq]
    exact fun which _ => (hfound which).2 (.inr (hall which))
  rw [if_pos hcomplete]
  rw [ofPoints_eq hall] at hread
  exact hread.change fun image =>
    { image with given := { image.given with chromaticities := true } }

end Faces

end Block

end ScriptedPng
