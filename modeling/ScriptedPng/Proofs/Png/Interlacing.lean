import ScriptedPng.Proofs.Png.Picture

/-!
# Interlacing

The table of passes says which pass takes a pixel; the passes say which columns of which rows they
take. Both give the same scanlines in the same order.

## Main definitions

* `Pass.positions` — the positions that a pass takes, row by row.

## Main statements

* `Png.steps_eq_filter` — steps meet the numbers with the same remainder.
* `Png.passOf_eq_iff` — the pass that takes a pixel, by the remainders of its row and column.
* `Header.order_adam7` — the positions in order are those of the passes.
* `Header.mem_order`, `Header.lt_of_mem_order` — they are the positions of all pixels.
-/

namespace ScriptedPng.Png

/-! ## Steps -/

theorem add_div_eq {step a b : Nat} (h : b < step) : (step * a + b) / step = a := by
  rw [Nat.mul_add_div (by omega), Nat.div_eq_of_lt h, Nat.add_zero]

/-- One more number is met just if it has the remainder. -/
theorem stepCount_succ {first step limit : Nat} (h : first < step) :
    stepCount first step (limit + 1) =
      stepCount first step limit + if limit % step = first then 1 else 0 := by
  have hlimit := Nat.div_add_mod limit step
  have hmod := Nat.mod_lt limit (show 0 < step by omega)
  generalize limit / step = q at hlimit
  generalize limit % step = r at hlimit hmod ⊢
  simp only [stepCount]
  rcases Nat.lt_trichotomy r first with hlt | rfl | hgt
  · cases q with
    | zero =>
      have hnext : limit + 1 - first = 0 := by omega
      have hnow : limit - first = 0 := by omega
      rw [if_neg (by omega), hnext, hnow, Nat.add_zero (_ / _)]
    | succ q =>
      rw [Nat.mul_succ] at hlimit
      have hnext : limit + 1 - first + step - 1 = step * (q + 1) + (step + r - first) := by
        rw [Nat.mul_succ]
        omega
      have hnow : limit - first + step - 1 = step * (q + 1) + (step + r - first - 1) := by
        rw [Nat.mul_succ]
        omega
      rw [hnext, hnow, if_neg (by omega), add_div_eq (by omega), add_div_eq (by omega)]
  · have hnext : limit + 1 - r + step - 1 = step * (q + 1) + 0 := by
      rw [Nat.mul_succ]
      omega
    have hnow : limit - r + step - 1 = step * q + (step - 1) := by omega
    rw [hnext, hnow, if_pos rfl, add_div_eq (by omega), add_div_eq (by omega)]
  · have hnext : limit + 1 - first + step - 1 = step * (q + 1) + (r - first) := by
      rw [Nat.mul_succ]
      omega
    have hnow : limit - first + step - 1 = step * (q + 1) + (r - first - 1) := by
      rw [Nat.mul_succ]
      omega
    rw [hnext, hnow, if_neg (by omega), add_div_eq (by omega), add_div_eq (by omega)]

theorem add_mul_stepCount {first step limit : Nat} (h : first < step)
    (hmod : limit % step = first) : first + step * stepCount first step limit = limit := by
  have hlimit := Nat.div_add_mod limit step
  have hnow : limit - first + step - 1 = step * (limit / step) + (step - 1) := by omega
  rw [stepCount, hnow, add_div_eq (by omega)]
  omega

/-- The numbers in steps are those with the same remainder. -/
theorem steps_eq_filter {first step : Nat} (h : first < step) (limit : Nat) :
    steps first step limit = (List.range limit).filter (· % step = first) := by
  induction limit with
  | zero =>
    have hcount : stepCount first step 0 = 0 := by
      rw [stepCount, Nat.zero_sub, Nat.zero_add]
      exact Nat.div_eq_of_lt (by omega)
    rw [steps, hcount]
    rfl
  | succ limit ih =>
    rw [List.range_succ, List.filter_append, ← ih, steps, steps, stepCount_succ h]
    by_cases hmod : limit % step = first
    · rw [if_pos hmod, List.range'_concat, add_mul_stepCount h hmod,
        List.filter_cons_of_pos (by simpa using hmod), List.filter_nil]
    · rw [if_neg hmod, List.filter_cons_of_neg (by simpa using hmod), List.filter_nil,
        List.append_nil, Nat.add_zero]

/-- Steps stay below the limit. -/
theorem lt_of_mem_steps {first step limit n : Nat} (h : n ∈ steps first step limit) :
    n < limit := by
  obtain ⟨i, hi, rfl⟩ := List.mem_range'.1 h
  rcases Nat.eq_zero_or_pos step with rfl | hpos
  · simp [stepCount] at hi
  · have hle := (Nat.le_div_iff_mul_le hpos).1 (Nat.succ_le_of_lt hi)
    rw [Nat.succ_mul, Nat.mul_comm] at hle
    omega

/-! ## Passes -/

/-- The passes with the numbers they have in the table. -/
def numberedPasses : List (Nat × Pass) := [1, 2, 3, 4, 5, 6, 7].zip adam7

/-- The pass that takes a pixel, by the remainders of its row and column. -/
theorem passOf_eq_iff {entry : Nat × Pass} (h : entry ∈ numberedPasses) (row column : Nat) :
    passOf row column = entry.1 ↔
      row % entry.2.dy = entry.2.y ∧ column % entry.2.dx = entry.2.x := by
  have htable : ∀ entry ∈ numberedPasses, ∀ row < 8, ∀ column < 8,
      (passOf row column = entry.1 ↔
        row % entry.2.dy = entry.2.y ∧ column % entry.2.dx = entry.2.x) := by decide
  have hdvd : ∀ entry ∈ numberedPasses, 8 % entry.2.dy = 0 ∧ 8 % entry.2.dx = 0 := by decide
  have htile := htable entry h (row % 8) (Nat.mod_lt _ (by decide)) (column % 8)
    (Nat.mod_lt _ (by decide))
  obtain ⟨hdy, hdx⟩ := hdvd entry h
  rwa [Nat.mod_mod_of_dvd _ (Nat.dvd_of_mod_eq_zero hdy),
    Nat.mod_mod_of_dvd _ (Nat.dvd_of_mod_eq_zero hdx), passOf, Nat.mod_mod, Nat.mod_mod] at htile

/-- Every pixel is taken by one of the passes. -/
theorem passOf_mem (row column : Nat) : passOf row column ∈ [1, 2, 3, 4, 5, 6, 7] := by
  have htable : ∀ row < 8, ∀ column < 8, passOf row column ∈ [1, 2, 3, 4, 5, 6, 7] := by decide
  have htile := htable (row % 8) (Nat.mod_lt _ (by decide)) (column % 8)
    (Nat.mod_lt _ (by decide))
  rwa [passOf, Nat.mod_mod, Nat.mod_mod] at htile

/-- The positions that a pass takes, row by row. -/
def Pass.positions (pass : Pass) (width height : Nat) : List (List Position) :=
  (steps pass.y pass.dy height).map fun row => (steps pass.x pass.dx width).map (row, ·)

theorem steps_eq_nil_iff {first step limit : Nat} (h : first < step) :
    steps first step limit = [] ↔ limit ≤ first := by
  rw [steps_eq_filter h, List.filter_eq_nil_iff]
  constructor
  · intro hnone
    apply Nat.not_lt.1
    intro hlt
    exact hnone first (List.mem_range.2 hlt) (by simpa using Nat.mod_eq_of_lt h)
  · intro hle i hi
    have hlt := List.mem_range.1 hi
    rw [decide_eq_true_eq, Nat.mod_eq_of_lt (by omega)]
    omega

theorem filter_map_ite {α β : Type} (test : α → Bool) (f : α → List β) (items : List α)
    (h : ∀ item, f item ≠ []) :
    (items.map fun item => if test item then f item else []).filter (!·.isEmpty) =
      (items.filter test).map f := by
  induction items with
  | nil => rfl
  | cons item items ih =>
    cases htest : test item <;> simp_all

/-- The scanlines of a pass: none if the picture is too small for it. -/
theorem filter_passRow {entry : Nat × Pass} (h : entry ∈ numberedPasses) (width height : Nat) :
    ((List.range height).map (passRow width entry.1)).filter (!·.isEmpty) =
      if entry.2.x < width ∧ entry.2.y < height then entry.2.positions width height else [] := by
  have hfirst : ∀ entry ∈ numberedPasses, entry.2.x < entry.2.dx ∧ entry.2.y < entry.2.dy := by
    decide
  obtain ⟨hx, hy⟩ := hfirst entry h
  have hrow : passRow width entry.1 = fun row =>
      if decide (row % entry.2.dy = entry.2.y) = true then
        (steps entry.2.x entry.2.dx width).map (row, ·) else [] := by
    funext row
    have hcolumn (column : Nat) := passOf_eq_iff h row column
    by_cases hmod : row % entry.2.dy = entry.2.y
    · simp [passRow, hcolumn, hmod, steps_eq_filter hx]
    · simp [passRow, hcolumn, hmod]
  rw [hrow]
  by_cases hwidth : entry.2.x < width
  · have hne : ∀ row : Nat, (steps entry.2.x entry.2.dx width).map (row, ·) ≠ [] := fun row hnil =>
      Nat.not_le.2 hwidth ((steps_eq_nil_iff hx).1 (List.map_eq_nil_iff.1 hnil))
    rw [filter_map_ite _ _ _ hne, ← steps_eq_filter hy]
    by_cases hheight : entry.2.y < height
    · rw [if_pos ⟨hwidth, hheight⟩, Pass.positions]
    · rw [if_neg fun hmeets => hheight hmeets.2,
        (steps_eq_nil_iff hy).2 (Nat.not_lt.1 hheight), List.map_nil]
  · have hnone : steps entry.2.x entry.2.dx width = [] :=
      (steps_eq_nil_iff hx).2 (Nat.not_lt.1 hwidth)
    rw [if_neg fun hmeets => hwidth hmeets.1, hnone]
    simp

/-- The positions in the order of an interlaced picture are those of the passes. -/
theorem Header.order_adam7 {header : Header} (h : header.interlace = .adam7) {image : Image}
    (hwidth : image.width = header.width) (hheight : image.height = header.height) :
    header.order = (passes image).flatMap fun pass =>
      pass.positions header.width header.height := by
  have hnumbers : [1, 2, 3, 4, 5, 6, 7] = numberedPasses.map Prod.fst := rfl
  have hpasses : adam7 = numberedPasses.map Prod.snd := rfl
  have hmeets (pass : Pass) : pass.Meets image ↔
      pass.x < header.width ∧ pass.y < header.height := by
    rw [Pass.Meets, hwidth, hheight, Int.ofNat_lt, Int.ofNat_lt]
  have hflat (items : List (Nat × Pass)) (h : ∀ entry ∈ items, entry ∈ numberedPasses) :
      (items.flatMap fun entry => (List.range header.height).map
        (passRow header.width entry.1)).filter (!·.isEmpty) =
      ((items.map Prod.snd).filter fun pass => pass.Meets image).flatMap fun pass =>
        pass.positions header.width header.height := by
    induction items with
    | nil => rfl
    | cons entry items ih =>
      rw [List.flatMap_cons, List.filter_append, filter_passRow (h entry List.mem_cons_self),
        ih fun entry hmem => h entry (List.mem_cons_of_mem _ hmem), List.map_cons]
      by_cases hentry : entry.2.x < header.width ∧ entry.2.y < header.height
      · rw [if_pos hentry, List.filter_cons_of_pos (by simpa [hmeets] using hentry),
          List.flatMap_cons]
      · rw [if_neg hentry, List.filter_cons_of_neg (by simpa [hmeets] using hentry),
          List.nil_append]
  rw [order, h, passes, hpasses, ← hflat numberedPasses fun _ h => h, hnumbers, List.flatMap_map]

/-- Every pixel is at one of the positions. -/
theorem Header.mem_order {header : Header} {row column : Nat} (hrow : row < header.height)
    (hcolumn : column < header.width) : (row, column) ∈ header.order.flatten := by
  have hmem (positions : List Position) (h : (row, column) ∈ positions) :
      positions ∈ header.order → (row, column) ∈ header.order.flatten := fun horder =>
    List.mem_flatten.2 ⟨positions, horder, h⟩
  cases hinterlace : header.interlace with
  | none =>
    refine hmem ((List.range header.width).map (row, ·))
      (List.mem_map_of_mem (List.mem_range.2 hcolumn)) ?_
    rw [order, hinterlace]
    exact List.mem_map_of_mem (List.mem_range.2 hrow)
  | adam7 =>
    have hposition : (row, column) ∈ passRow header.width (passOf row column) row := by
      simp [passRow, hcolumn]
    refine hmem _ hposition ?_
    rw [order, hinterlace]
    refine List.mem_filter.2 ⟨List.mem_flatMap.2 ⟨_, passOf_mem row column, ?_⟩, ?_⟩
    · exact List.mem_map_of_mem (List.mem_range.2 hrow)
    · simpa using List.ne_nil_of_mem hposition

/-- All positions are those of pixels. -/
theorem Header.lt_of_mem_order {header : Header} {row column : Nat}
    (h : (row, column) ∈ header.order.flatten) : row < header.height ∧ column < header.width := by
  obtain ⟨positions, horder, hmem⟩ := List.mem_flatten.1 h
  cases hinterlace : header.interlace with
  | none =>
    rw [order, hinterlace] at horder
    obtain ⟨other, hother, rfl⟩ := List.mem_map.1 horder
    obtain ⟨found, hfound, heq⟩ := List.mem_map.1 hmem
    cases heq
    exact ⟨List.mem_range.1 hother, List.mem_range.1 hfound⟩
  | adam7 =>
    rw [order, hinterlace] at horder
    obtain ⟨pass, -, hpass⟩ := List.mem_flatMap.1 (List.mem_filter.1 horder).1
    obtain ⟨other, hother, rfl⟩ := List.mem_map.1 hpass
    obtain ⟨found, hfound, heq⟩ := List.mem_map.1 hmem
    cases heq
    exact ⟨List.mem_range.1 hother, List.mem_range.1 (List.mem_filter.1 hfound).1⟩

end ScriptedPng.Png
