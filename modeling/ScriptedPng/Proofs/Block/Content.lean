import ScriptedPng.Block.Chromaticities
import ScriptedPng.Block.Header
import ScriptedPng.Block.Intent
import ScriptedPng.Block.Palette
import ScriptedPng.Proofs.Lexer.Pieces

/-!
# What blocks say

A source is a sequence of blocks. What a block says is its content: settings, entries, points, a
number, or the digits of a data segment. A content is spelled in pieces, and is all that a block
adds to the description of the image.

## Main definitions

* `Items` — items one after the other, each one in parts of its own.
* `Block.Content` — what a block says, with `Content.keyword` and `Content.Spelled`.
* `Content.apply` — the image with a block added to its description.
* `Content.gamma?`, `Content.chromaticities?`, `Content.intent?`, `Content.entries?` — what a block
  sets.

## Main statements

* `foldl_last` — a value that some of the items set is set by the last of them.
* `Block.ofPoints_eq` — the last point of each name counts.
-/

namespace ScriptedPng

variable {α β γ δ : Type}

/-! ## Sequences of items -/

/-- Items one after the other, each one in parts of its own. -/
inductive Items (spelled : α → List β → Prop) : List α → List β → Prop
  | nil : Items spelled [] []
  | cons {item : α} {items : List α} {parts rest : List β} (h : spelled item parts)
      (hrest : Items spelled items rest) : Items spelled (item :: items) (parts ++ rest)

namespace Items

variable {spelled : α → List β → Prop} {items others : List α} {parts rest : List β} {item : α}

theorem append (h : Items spelled items parts) (hrest : Items spelled others rest) :
    Items spelled (items ++ others) (parts ++ rest) := by
  induction h with
  | nil => exact hrest
  | cons h _ ih =>
    rw [List.append_assoc]
    exact .cons h ih

theorem singleton (h : spelled item parts) : Items spelled [item] parts := by
  simpa using Items.cons h .nil

theorem concat (h : Items spelled items parts) (hitem : spelled item rest) :
    Items spelled (items ++ [item]) (parts ++ rest) :=
  h.append (.singleton hitem)

end Items

/-- A value that some of the items set is set by the last of them. -/
theorem foldl_last {apply : β → α → β} (get : β → δ) (f : γ → δ) {set? : α → Option γ}
    (h : ∀ state item, get (apply state item) = ((set? item).map f).getD (get state))
    (items : List α) (state : β) :
    get (items.foldl apply state) =
      ((items.filterMap set?).getLast?.map f).getD (get state) := by
  induction items generalizing state with
  | nil => rfl
  | cons item items ih =>
    rw [List.foldl_cons, ih, h, List.filterMap_cons]
    cases set? item with
    | none => rfl
    | some value =>
      cases hlast : (items.filterMap set?).getLast? <;> simp [List.getLast?_cons, hlast]

/-- A flag is set once one of the items sets it. -/
theorem foldl_any {apply : β → α → β} (get : β → Bool) {sets : α → Bool}
    (h : ∀ state item, get (apply state item) = (get state || sets item)) (items : List α)
    (state : β) : get (items.foldl apply state) = (get state || items.any sets) := by
  induction items generalizing state with
  | nil => simp
  | cons item items ih => rw [List.foldl_cons, ih, h, List.any_cons, Bool.or_assoc]

/-- A token that is not quoted. -/
def Piece.bare (text : String) : Piece := .token text false

/-- The token as a piece. -/
def Token.piece (token : Token) : Piece := .token token.text token.quoted

namespace Block

/-! ## Constants -/

/-- The text is an integer constant with the given value, which is within the limit. -/
def IsInteger (limit : Nat) (text : String) (value : Nat) : Prop :=
  IntegerConstant.parse text = .ok value ∧ value ≤ limit

/-- The text is a double-precision constant with the given value, which is finite and not negative.
-/
def IsDouble (text : String) (value : Double) : Prop :=
  DoubleConstant.parse? text = some value ∧ value.IsFinite ∧ ¬ value.IsNegative

/-! ## The spelling of items -/

/-- The pieces of a setting of a header: a word, with a value behind it if it has one. -/
inductive Header.Setting.Spelled : Header.Setting → List Piece → Prop
  | height {text : String} {quoted : Bool} {value : Nat} (h : IsInteger longLimit text value) :
      Spelled (.height value) [.bare "height", .token text quoted]
  | width {text : String} {quoted : Bool} {value : Nat} (h : IsInteger longLimit text value) :
      Spelled (.width value) [.bare "width", .token text quoted]
  | bitDepth {text : String} {quoted : Bool} {value : Nat} (h : IsInteger byteLimit text value) :
      Spelled (.bitDepth value) [.bare "bitdepth", .token text quoted]
  | palette : Spelled .palette [.bare "palette"]
  | color : Spelled .color [.bare "color"]
  | alpha : Spelled .alpha [.bare "alpha"]
  | interlace : Spelled .interlace [.bare "interlace"]
  | filler {text : String} (h : text = "using" ∨ text = "with") : Spelled .filler [.bare text]

/-- The pieces of an entry of a palette: its colors in parentheses. -/
inductive Palette.Spelled : Rgb → List Piece → Prop
  | entry {text text' text'' : String} {quoted quoted' quoted'' : Bool} {red green blue : Nat}
      (hred : IsInteger byteLimit text red) (hgreen : IsInteger byteLimit text' green)
      (hblue : IsInteger byteLimit text'' blue) :
      Spelled ⟨red, green, blue⟩
        [.bare "(", .token text quoted, .bare ",", .token text' quoted', .bare ",",
          .token text'' quoted'', .bare ")"]

/-- The pieces of a point: its name, and its coordinates in parentheses. -/
inductive Chromaticities.Spelled : Primary × Point → List Piece → Prop
  | point {which : Primary} {text text' : String} {quoted quoted' : Bool} {x y : Double}
      (hx : IsDouble text x) (hy : IsDouble text' y) :
      Spelled (which, ⟨x, y⟩)
        [.bare which.name, .bare "(", .token text quoted, .bare ",", .token text' quoted',
          .bare ")"]

/-! ## Contents -/

/-- What a block says. -/
inductive Content where
  | header (settings : List Header.Setting)
  | palette (entries : List Rgb)
  | chromaticities (points : List (Primary × Point))
  | gamma (value : Double)
  | intent (number : Nat)
  /-- The digits of the octets of a chunk. -/
  | data (digits : List Char)
  /-- The digits of the pixels. -/
  | pixels (digits : List Char)

/-- The pieces of a block with the given keyword and inner pieces. -/
def framed (keyword : Keyword) (inner : List Piece) : List Piece :=
  .bare keyword.name :: .bare "\x7b" :: (inner ++ [.bare "\x7d"])

/-- The points by their names; of several points with a name the last one counts. -/
def ofPoints (points : List (Primary × Point)) : Chromaticities :=
  let last (which : Primary) : Point := (points.reverse.lookup which).getD {}
  ⟨last .white, last .red, last .green, last .blue⟩

namespace Content

/-- The keyword of the block. -/
def keyword : Content → Keyword
  | header _ => .header
  | palette _ => .palette
  | chromaticities _ => .chromaticities
  | gamma _ => .gamma
  | intent _ => .intent
  | data _ => .data
  | pixels _ => .pixels

/-- The pieces of the block. -/
inductive Spelled : Content → List Piece → Prop
  | header {settings : List Header.Setting} {inner : List Piece}
      (h : Items Header.Setting.Spelled settings inner) :
      Spelled (.header settings) (framed .header inner)
  | palette {entries : List Rgb} {inner : List Piece} (h : Items Palette.Spelled entries inner) :
      Spelled (.palette entries) (framed .palette inner)
  | chromaticities {points : List (Primary × Point)} {inner : List Piece}
      (h : Items Chromaticities.Spelled points inner)
      (hall : ∀ which, which ∈ points.map Prod.fst) :
      Spelled (.chromaticities points) (framed .chromaticities inner)
  | gamma {text : String} {quoted : Bool} {value : Double} (h : IsDouble text value) :
      Spelled (.gamma value) (framed .gamma [.token text quoted])
  | intent {text : String} {quoted : Bool} {number : Nat} (h : IsInteger byteLimit text number)
      (hlt : number < intentCount) :
      Spelled (.intent number) (framed .intent [.token text quoted])
  | data {digits : List Char} :
      Spelled (.data digits) [.bare Keyword.data.name, .bare "\x7b", .segment digits]
  | pixels {digits : List Char} :
      Spelled (.pixels digits) [.bare Keyword.pixels.name, .bare "\x7b", .segment digits]

/-- The image with the block added to its description. -/
def apply (image : Image) : Content → Image
  | header settings => settings.foldl Header.Setting.apply (Header.reset image)
  | palette entries =>
    { image with
      palette := image.palette ++ entries
      given := { image.given with palette := true } }
  | chromaticities points =>
    { image with
      chromaticities := ofPoints points
      given := { image.given with chromaticities := true } }
  | gamma value =>
    { image with gamma := value, given := { image.given with gamma := true } }
  | intent number => inStandardSpace number image
  | data _ | pixels _ => image

/-! ## What blocks set -/

/-- Settings of a header leave the rest of the description alone. -/
theorem foldl_settings (settings : List Header.Setting) (image : Image) :
    settings.foldl Header.Setting.apply image =
      { settings.foldl Header.Setting.apply image with
        gamma := image.gamma, chromaticities := image.chromaticities, palette := image.palette
        intent := image.intent, given := image.given } := by
  induction settings generalizing image with
  | nil => rfl
  | cons setting settings ih =>
    rw [List.foldl_cons, ih]
    cases setting <;> rfl

variable (image : Image) (block : Content)

end Content

/-! ## Points -/

theorem Chromaticities.eq_of_get {points points' : Chromaticities}
    (h : ∀ which, points.get which = points'.get which) : points = points' := by
  obtain ⟨white, red, green, blue⟩ := points
  obtain ⟨white', red', green', blue'⟩ := points'
  obtain rfl : white = white' := h .white
  obtain rfl : red = red' := h .red
  obtain rfl : green = green' := h .green
  obtain rfl : blue = blue' := h .blue
  rfl

/-- Points put in one after the other: the last one of each name counts. -/
theorem get_foldl_set (points : List (Primary × Point)) (start : Chromaticities)
    (which : Primary) :
    (points.foldl (fun found point => found.set point.1 point.2) start).get which =
      (points.reverse.lookup which).getD (start.get which) := by
  induction points generalizing start with
  | nil => rfl
  | cons point points ih =>
    obtain ⟨primary, point⟩ := point
    rw [List.foldl_cons, ih, Chromaticities.get_set, List.reverse_cons, List.lookup_append]
    cases points.reverse.lookup which with
    | some found => rfl
    | none =>
      by_cases h : which = primary
      · simp [h]
      · have hne : (which == primary) = false := by simpa using h
        simp [h, List.lookup_cons, hne]

/-- If each name is there, nothing is left of the points before. -/
theorem ofPoints_eq {points : List (Primary × Point)} (hall : ∀ which, which ∈ points.map Prod.fst)
    (start : Chromaticities) :
    points.foldl (fun found point => found.set point.1 point.2) start = ofPoints points := by
  refine Chromaticities.eq_of_get fun which => ?_
  have hget : (ofPoints points).get which = (points.reverse.lookup which).getD {} := by
    cases which <;> rfl
  rw [get_foldl_set, hget]
  cases hlookup : points.reverse.lookup which with
  | some found => rfl
  | none =>
    obtain ⟨point, hmem, rfl⟩ := List.mem_map.1 (hall which)
    have hne := List.lookup_eq_none_iff.1 hlookup point (List.mem_reverse.2 hmem)
    simp at hne

end Block

end ScriptedPng
