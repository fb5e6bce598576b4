import ScriptedPng.Block.Order

/-!
# The language of block orders

The guards of the blocks look at counts and at the last block only. Together they accept the
beginnings of the words of one language: the header, properties in any order, perhaps the palette,
and the pixels in one of two forms.

## Main definitions

* `Block.IsWord` — the orders of a whole source.
* `Block.IsStart` — the beginnings of such orders.
* `Progress.Matches` — the progress after blocks in an order.

## Main statements

* `Block.isStart_iff` — a beginning stops within the properties or goes on to the palette and the
  pixels.
* `Progress.check_eq_ok_iff` — the guards let pass what goes on to be a beginning.
* `Block.IsStart.pixels_end` — nothing but data follows data, and nothing follows pixels.
-/

namespace ScriptedPng.Block

open Diagnostic

/-! ## Words -/

/-- The blocks that give properties of the colors. -/
def properties : List Keyword := [.gamma, .chromaticities, .intent]

/-- The blocks that give pixels: one block of pixels, or blocks of data. -/
def IsPixels (names : List Keyword) : Prop :=
  names = [.pixels] ∨ ∃ n, names = List.replicate (n + 1) .data

/-- The blocks of a palette, which is there only for an image that uses it. -/
def IsPalette (indexed : Bool) (names : List Keyword) : Prop :=
  names = [] ∨ indexed = true ∧ names = [.palette]

/-- The keywords of a whole source, given whether the header says that there is a palette. -/
def IsWord (indexed : Bool) (names : List Keyword) : Prop :=
  ∃ before palette pixels, names = .header :: (before ++ palette ++ pixels) ∧
    (before.Nodup ∧ ∀ name ∈ before, name ∈ properties) ∧ IsPalette indexed palette ∧
    IsPixels pixels

/-- The keywords that the source of a whole image can start with. -/
def IsStart (indexed : Bool) (names : List Keyword) : Prop :=
  ∃ word, IsWord indexed word ∧ names <+: word

variable {indexed : Bool} {names : List Keyword}

theorem prefix_append_cases {α : Type} {items front back : List α} (h : items <+: front ++ back) :
    items <+: front ∨ ∃ rest, items = front ++ rest ∧ rest <+: back := by
  rcases List.prefix_or_prefix_of_prefix h (List.prefix_append front back) with h' | ⟨rest, rfl⟩
  · exact .inl h'
  · exact .inr ⟨rest, rfl, (List.prefix_append_right_inj front).1 h⟩

/-- The parts of a beginning: the pixels may be missing, and data may go on. -/
structure Parts (indexed : Bool) (before palette pixels : List Keyword) : Prop where
  nodup : before.Nodup
  mem_properties : ∀ name ∈ before, name ∈ properties
  palette : IsPalette indexed palette
  pixels : pixels = [] ∨ IsPixels pixels

theorem Parts.isStart {before palette pixels : List Keyword}
    (h : Parts indexed before palette pixels) :
    IsStart indexed (.header :: (before ++ palette ++ pixels)) := by
  rcases h.pixels with rfl | hpixels
  · refine ⟨.header :: (before ++ palette ++ [.pixels]), ⟨before, palette, [.pixels], rfl, ⟨h.nodup,
      h.mem_properties⟩, h.palette, .inl rfl⟩, ?_⟩
    simp
  · exact ⟨_, ⟨before, palette, pixels, rfl, ⟨h.nodup, h.mem_properties⟩, h.palette, hpixels⟩,
      List.prefix_rfl⟩

/-- A beginning is empty, or the header with the parts that follow. -/
theorem isStart_iff : IsStart indexed names ↔
    names = [] ∨ ∃ before palette pixels, names = .header :: (before ++ palette ++ pixels) ∧
      Parts indexed before palette pixels := by
  constructor
  · rintro ⟨_, ⟨before, palette, pixels, rfl, ⟨hnodup, hmem⟩, hpalette, hpixels⟩, hbegins⟩
    rcases List.prefix_cons_iff.1 hbegins with rfl | ⟨rest, rfl, hrest⟩
    · exact .inl rfl
    right
    rw [List.append_assoc] at hrest
    rcases prefix_append_cases hrest with hbefore | ⟨rest, rfl, hmore⟩
    · have hsub := hbefore.sublist
      exact ⟨rest, [], [], by simp, hnodup.sublist hsub, fun name h => hmem name (hsub.subset h),
        .inl rfl, .inl rfl⟩
    rcases prefix_append_cases hmore with hfront | ⟨rest, rfl, hback⟩
    · refine ⟨before, rest, [], by simp, hnodup, hmem, ?_, .inl rfl⟩
      rcases hpalette with rfl | ⟨hindexed, rfl⟩
      · exact .inl (List.prefix_nil.1 hfront)
      · rcases List.prefix_cons_iff.1 hfront with rfl | ⟨_, rfl, htail⟩
        · exact .inl rfl
        · exact .inr ⟨hindexed, by rw [List.prefix_nil.1 htail]⟩
    · refine ⟨before, palette, rest, by simp, hnodup, hmem, hpalette, ?_⟩
      rcases hpixels with rfl | ⟨n, rfl⟩
      · rcases List.prefix_cons_iff.1 hback with rfl | ⟨_, rfl, htail⟩
        · exact .inl rfl
        · exact .inr (.inl (by rw [List.prefix_nil.1 htail]))
      · obtain ⟨-, hall⟩ := List.prefix_replicate_iff.1 hback
        cases hlength : rest.length with
        | zero => exact .inl (List.length_eq_zero_iff.1 hlength)
        | succ m => exact .inr (.inr ⟨m, by rw [hall, hlength]⟩)
  · rintro (rfl | ⟨before, palette, pixels, rfl, hparts⟩)
    · exact ⟨_, ⟨[], [], [.pixels], rfl, ⟨.nil, by simp⟩, .inl rfl, .inl rfl⟩, List.nil_prefix⟩
    · exact hparts.isStart

theorem isStart_singleton_header : IsStart indexed [.header] :=
  isStart_iff.2 (.inr ⟨[], [], [], rfl, .nil, by simp, .inl rfl, .inl rfl⟩)

theorem IsPalette.eq_nil {palette : List Keyword} (h : IsPalette indexed palette)
    (hno : .palette ∉ palette) : palette = [] := by
  rcases h with rfl | ⟨-, rfl⟩
  · rfl
  · exact absurd List.mem_cons_self hno

theorem IsPixels.mem {pixels : List Keyword} (h : IsPixels pixels) :
    .data ∈ pixels ∨ .pixels ∈ pixels := by
  rcases h with rfl | ⟨n, rfl⟩
  · exact .inr List.mem_cons_self
  · exact .inl (by simp)

theorem IsPixels.eq_nil {pixels : List Keyword} (h : pixels = [] ∨ IsPixels pixels)
    (hdata : .data ∉ pixels) (himage : .pixels ∉ pixels) : pixels = [] :=
  h.resolve_right fun h => h.mem.elim hdata himage

/-- Pixels that are not in one block are given by blocks of data. -/
theorem IsPixels.eq_replicate {pixels : List Keyword} (h : pixels = [] ∨ IsPixels pixels)
    (hno : .pixels ∉ pixels) : ∃ n, pixels = List.replicate n .data := by
  rcases h with rfl | rfl | ⟨n, rfl⟩
  · exact ⟨0, rfl⟩
  · exact absurd List.mem_cons_self hno
  · exact ⟨n + 1, rfl⟩

/-- Blocks that give pixels are found among the pixels only. -/
theorem Parts.not_mem_front {before palette pixels : List Keyword}
    (h : Parts indexed before palette pixels) {name : Keyword}
    (hname : name = .data ∨ name = .pixels) : name ∉ .header :: (before ++ palette) := by
  have hbefore : name ∉ before := fun hmem => by
    have := h.mem_properties name hmem
    rcases hname with rfl | rfl <;> simp [properties] at this
  rcases h.palette with rfl | ⟨-, rfl⟩ <;> rcases hname with rfl | rfl <;> simp [hbefore]

/-- After blocks that give pixels there are only blocks of data, and only if they gave data. -/
theorem IsStart.pixels_end {front rest : List Keyword} {name other : Keyword}
    (h : IsStart indexed (front ++ name :: rest)) (hname : name = .data ∨ name = .pixels)
    (hother : other ∈ rest) : name = .data ∧ other = .data := by
  rcases isStart_iff.1 h with hnil | ⟨before, palette, pixels, heq, hparts⟩
  · simp at hnil
  have hfront := hparts.not_mem_front hname
  rw [← List.cons_append] at heq
  obtain ⟨skipped, rfl⟩ : ∃ skipped, pixels = skipped ++ name :: rest := by
    rcases List.append_eq_append_iff.1 heq with ⟨_ | ⟨first, more⟩, hxs, hpixels⟩ |
      ⟨skipped, -, hpixels⟩
    · exact ⟨[], hpixels.symm⟩
    · obtain ⟨rfl, -⟩ := List.cons.inj hpixels
      exact absurd (by simp [hxs]) hfront
    · exact ⟨skipped, hpixels⟩
  rcases hparts.pixels with hnil | hone | ⟨n, hall⟩
  · simp at hnil
  · obtain ⟨rfl, hcons⟩ : skipped = [] ∧ name :: rest = [.pixels] := by
      cases skipped <;> simp_all
    obtain ⟨-, rfl⟩ := List.cons.inj hcons
    cases hother
  · have hdata (found : Keyword) (hmem : found ∈ skipped ++ name :: rest) : found = .data :=
      List.eq_of_mem_replicate (hall ▸ hmem)
    exact ⟨hdata name (by simp), hdata other (by simp [hother])⟩

/-- All blocks of a beginning can be compiled. -/
theorem IsStart.isSupported (h : IsStart indexed names) {name : Keyword} (hmem : name ∈ names) :
    name.isSupported = true := by
  rcases isStart_iff.1 h with rfl | ⟨before, palette, pixels, rfl, hparts⟩
  · cases hmem
  simp only [List.mem_cons, List.mem_append] at hmem
  rcases hmem with rfl | (hbefore | hpalette) | hpixels
  · rfl
  · have := hparts.mem_properties name hbefore
    simp only [properties, List.mem_cons, List.not_mem_nil, or_false] at this
    rcases this with rfl | rfl | rfl <;> rfl
  · rcases hparts.palette with rfl | ⟨-, rfl⟩
    · cases hpalette
    · rw [List.mem_singleton.1 hpalette]
      rfl
  · rcases hparts.pixels with rfl | rfl | ⟨n, rfl⟩
    · cases hpixels
    · rw [List.mem_singleton.1 hpixels]
      rfl
    · rw [List.eq_of_mem_replicate hpixels]
      rfl

/-! ## Guards -/

namespace Progress

/-- The progress after blocks with the given keywords. -/
structure Matches (progress : Progress) (names : List Keyword) : Prop where
  seen_eq : progress.seen = names.reverse
  previous_eq : progress.previous = names.getLast?

variable {progress : Progress}

theorem Matches.add (h : progress.Matches names) (name : Keyword) :
    (progress.add name).Matches (names ++ [name]) :=
  ⟨by simp [Progress.add, h.seen_eq], by simp [Progress.add]⟩

theorem Matches.count_eq (h : progress.Matches names) (name : Keyword) :
    progress.count name = names.count name := by
  rw [count, h.seen_eq, List.count_reverse]

theorem Matches.has_eq (h : progress.Matches names) (name : Keyword) :
    progress.has name = decide (name ∈ names) := by
  have : 0 < names.count name ↔ name ∈ names := List.count_pos_iff
  rw [has, h.count_eq, decide_eq_decide, ← this]
  omega

theorem Matches.hasPixels_eq (h : progress.Matches names) :
    progress.hasPixels = decide (.data ∈ names ∨ .pixels ∈ names) := by
  have hdata : 0 < names.count .data ↔ .data ∈ names := List.count_pos_iff
  have hpixels : 0 < names.count .pixels ↔ .pixels ∈ names := List.count_pos_iff
  rw [hasPixels, pixelBlocks, h.count_eq, h.count_eq, decide_eq_decide, ← hdata, ← hpixels]
  omega

/-- What the guards ask of the blocks before a block. -/
def Allowed (names : List Keyword) (color : ColorFlags) : Keyword → Prop
  | .header => names = []
  | .palette => .header ∈ names ∧ .palette ∉ names ∧ .data ∉ names ∧ .pixels ∉ names ∧
      .background ∉ names ∧ .transparency ∉ names ∧ color.palette = true
  | .data => .header ∈ names ∧ .pixels ∉ names ∧ (.data ∈ names → names.getLast? = some .data)
  | .pixels => .header ∈ names ∧ .pixels ∉ names ∧ .data ∉ names
  | name => name ∈ properties ∧ .header ∈ names ∧ name ∉ names ∧ .palette ∉ names ∧
      .data ∉ names ∧ .pixels ∉ names

theorem Matches.check_eq_ok_iff_allowed (h : progress.Matches names) (color : ColorFlags)
    (name : Keyword) : progress.check color name = .ok () ↔ Allowed names color name := by
  have hempty : .header ∉ names ∧ names.getLast? = none ↔ names = [] := by
    rw [List.getLast?_eq_none_iff]
    constructor
    · exact And.right
    · rintro rfl
      simp
  cases name <;> simp [check, firstOf_eq_ok, faults, h.has_eq, h.hasPixels_eq, h.previous_eq,
    Keyword.isRepeatable, Keyword.isSupported, Allowed, properties] <;> grind

theorem allowed_iff {color : ColorFlags} {name : Keyword} : Allowed names color name ↔
    name = .header ∧ names = [] ∨
    name = .palette ∧ .header ∈ names ∧ .palette ∉ names ∧ .data ∉ names ∧ .pixels ∉ names ∧
      .background ∉ names ∧ .transparency ∉ names ∧ color.palette = true ∨
    name = .data ∧ .header ∈ names ∧ .pixels ∉ names ∧
      (.data ∈ names → names.getLast? = some .data) ∨
    name = .pixels ∧ .header ∈ names ∧ .pixels ∉ names ∧ .data ∉ names ∨
    name ∈ properties ∧ .header ∈ names ∧ name ∉ names ∧ .palette ∉ names ∧
      .data ∉ names ∧ .pixels ∉ names := by
  cases name <;> simp [Allowed, properties]

/-- A block that is allowed after a beginning gives a longer one. -/
theorem isStart_append_of_allowed {color : ColorFlags} {name : Keyword}
    (hstart : IsStart indexed names) (hcolor : names ≠ [] → color.palette = indexed)
    (h : Allowed names color name) : IsStart indexed (names ++ [name]) := by
  rcases isStart_iff.1 hstart with rfl | ⟨before, palette, pixels, rfl, hparts⟩
  · obtain ⟨rfl, -⟩ : name = .header ∧ True := by simpa using allowed_iff.1 h
    exact isStart_singleton_header
  refine isStart_iff.2 (.inr ?_)
  have hindexed := hcolor (List.cons_ne_nil _ _)
  obtain ⟨hnodup, hmem, hpalette, hpixels⟩ := hparts
  rcases allowed_iff.1 h with ⟨rfl, hnil⟩ | ⟨rfl, -, hno, hdata, himage, -, -, hflag⟩ |
    ⟨rfl, -, himage, -⟩ | ⟨rfl, -, himage, hdata⟩ | ⟨hproperty, -, hnew, hno, hdata, himage⟩
  · cases hnil
  · obtain rfl := hpalette.eq_nil fun hmem => hno (by simp [hmem])
    obtain rfl := IsPixels.eq_nil hpixels (fun hmem => hdata (by simp [hmem]))
      fun hmem => himage (by simp [hmem])
    exact ⟨before, [.palette], [], by simp, hnodup, hmem,
      .inr ⟨hindexed ▸ hflag, rfl⟩, .inl rfl⟩
  · obtain ⟨n, rfl⟩ := IsPixels.eq_replicate hpixels fun hmem => himage (by simp [hmem])
    exact ⟨before, palette, List.replicate (n + 1) .data, by simp [List.replicate_succ'], hnodup,
      hmem, hpalette, .inr (.inr ⟨n, rfl⟩)⟩
  · obtain rfl := IsPixels.eq_nil hpixels (fun hmem => hdata (by simp [hmem]))
      fun hmem => himage (by simp [hmem])
    exact ⟨before, palette, [.pixels], by simp, hnodup, hmem, hpalette, .inr (.inl rfl)⟩
  · obtain rfl := hpalette.eq_nil fun hmem => hno (by simp [hmem])
    obtain rfl := IsPixels.eq_nil hpixels (fun hmem => hdata (by simp [hmem]))
      fun hmem => himage (by simp [hmem])
    refine ⟨before ++ [name], [], [], by simp, ?_, ?_, .inl rfl, .inl rfl⟩
    · have hnew : name ∉ before := fun hmem => hnew (by simp [hmem])
      grind
    · simpa [or_imp, forall_and] using ⟨hmem, hproperty⟩

/-- What can be appended to a beginning is allowed. -/
theorem allowed_of_isStart_append {color : ColorFlags} {name : Keyword}
    (hcolor : names ≠ [] → color.palette = indexed)
    (h : IsStart indexed (names ++ [name])) : Allowed names color name := by
  rcases isStart_iff.1 h with hnil | ⟨before, palette, pixels, heq, hnodup, hmem, hpalette, hpixels⟩
  · simp at hnil
  have hbefore (other : Keyword) (h : other ∉ properties) : other ∉ before :=
    fun hother => h (hmem other hother)
  have hsplit (front : List Keyword) (last : Keyword)
      (h : .header :: (before ++ palette ++ pixels) = front ++ [last]) :
      names = front ∧ name = last := by
    obtain ⟨hnames, hname⟩ := List.append_inj' (heq.trans h) rfl
    exact ⟨hnames, List.cons.inj hname |>.1⟩
  have hnot : ∀ other ∈ [Keyword.header, .palette, .data, .pixels, .background, .transparency],
      other ∉ before := fun other hother => hbefore other (by revert other; decide)
  simp only [List.mem_cons, List.not_mem_nil, or_false, forall_eq_or_imp, forall_eq] at hnot
  have hpalettes (other : Keyword) (h : other ≠ .palette) : other ∉ palette := by
    rcases hpalette with rfl | ⟨-, rfl⟩ <;> simp [h]
  rw [allowed_iff]
  -- The last block is in the last of the parts that is not empty.
  rcases hpixels with rfl | rfl | ⟨n, rfl⟩
  · rcases hpalette with rfl | ⟨hflag, rfl⟩
    · rcases List.eq_nil_or_concat before with rfl | ⟨front, last, rfl⟩
      · obtain ⟨rfl, rfl⟩ := hsplit [] _ rfl
        exact .inl ⟨rfl, rfl⟩
      · obtain ⟨hnames, hname⟩ := hsplit (.header :: front) last (by simp)
        subst hnames hname
        have hlast : name ∈ properties := hmem name (by simp)
        have hnew : name ∉ front := by grind
        have hheader : name ≠ .header := by
          rintro rfl
          simp at hnot
        right; right; right; right
        simp_all
    · obtain ⟨rfl, rfl⟩ := hsplit (.header :: before) .palette (by simp)
      have hcolor := (hcolor (List.cons_ne_nil _ _)).trans hflag
      right; left
      simp [hnot, hcolor]
  · obtain ⟨rfl, rfl⟩ := hsplit (.header :: (before ++ palette)) .pixels (by simp)
    right; right; right; left
    simp [hnot, hpalettes]
  · obtain ⟨rfl, rfl⟩ := hsplit (.header :: (before ++ palette ++ List.replicate n .data)) .data
      (by simp [List.replicate_succ'])
    right; right; left
    refine ⟨rfl, List.mem_cons_self, by simp [hnot, hpalettes], fun hdata => ?_⟩
    cases n with
    | zero => simp [hnot, hpalettes] at hdata
    | succ n => simp [List.replicate_succ', ← List.append_assoc, List.getLast?_cons]

/-- The guards let a supported block pass after a beginning just if it makes a longer one. -/
theorem Matches.check_eq_ok_iff {color : ColorFlags} {name : Keyword}
    (h : progress.Matches names) (hstart : IsStart indexed names)
    (hcolor : names ≠ [] → color.palette = indexed) :
    progress.check color name = .ok () ↔ IsStart indexed (names ++ [name]) := by
  rw [h.check_eq_ok_iff_allowed]
  exact ⟨isStart_append_of_allowed hstart hcolor, allowed_of_isStart_append hcolor⟩

/-- The end is allowed once there are pixels, and a palette if the pixels refer to one. -/
theorem Matches.checkEnd_eq_ok_iff (h : progress.Matches names) (color : ColorFlags) :
    progress.checkEnd color = .ok () ↔
      (color.palette = true → .palette ∈ names) ∧ (.data ∈ names ∨ .pixels ∈ names) := by
  simp only [checkEnd, firstOf_eq_ok, h.has_eq, h.hasPixels_eq, List.forall_mem_cons]
  grind

end Progress

end ScriptedPng.Block
