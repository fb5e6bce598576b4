import ScriptedPng.Path

/-!
# Paths and their segments

Cutting a text at its slashes gives the names back that have been joined by slashes. So the path
with another suffix has the same names as the path itself but for the last one.

## Main definitions

* `Path.Proper` — the names of a path are names.

## Main statements

* `Path.segments_text`, `Path.rootOf_text` — the segments of the text of a path.
* `Path.segments_of_withSuffix?` — the segments of a path with another suffix.
-/

namespace ScriptedPng.Path

variable {path other : Path} {text suffix : String}

theorem cut_eq (chars : List Char) : cut chars = chars.splitOn '/' := by
  induction chars with
  | nil => rfl
  | cons c rest ih =>
    simp only [cut, ih, List.splitOn_eq_splitOnP, List.splitOnP_cons_eq_if_modifyHead]
    by_cases hslash : c = '/'
    · simp [hslash]
    · cases h : rest.splitOnP (· == '/') with
      | nil => exact absurd h (List.splitOnP_ne_nil _ _)
      | cons => simp [hslash]

theorem not_mem_of_mem_cut {chars segment : List Char} (h : segment ∈ cut chars) :
    '/' ∉ segment := by
  fun_induction cut chars generalizing segment <;> grind

theorem segments_ne_nil (text : String) : segments text ≠ [] := by
  simp [segments, cut_ne_nil]

/-- The root is none, one or two slashes, and each name has something in it, but no slash. -/
structure Proper (path : Path) : Prop where
  root : path.root = "" ∨ path.root = "/" ∨ path.root = "//"
  names : ∀ name ∈ path.names, name ≠ "" ∧ '/' ∉ name.toList

theorem proper_parse (text : String) : (parse text).Proper where
  root := by
    simp only [parse, rootOf]
    split <;> simp
  names name hname := by
    simp only [parse, segments, List.mem_filter, List.mem_map] at hname
    obtain ⟨⟨segment, hsegment, rfl⟩, hstays⟩ := hname
    refine ⟨fun hempty => ?_, ?_⟩
    · simp [staysInPlace, hempty] at hstays
    · simpa using not_mem_of_mem_cut hsegment

theorem mem_of_mem_stem {name : List Char} {c : Char} (h : c ∈ stem name) : c ∈ name := by
  simp only [stem] at h
  split at h
  · exact h
  · exact List.mem_of_mem_take h

/-- Only the last name of a path changes with its suffix. -/
theorem withSuffix?_eq_some (h : path.withSuffix? suffix = some other) :
    ∃ front last, path.names = front ++ [last] ∧
      other = { path with names := front ++ [String.ofList (stem last.toList) ++ suffix] } := by
  simp only [withSuffix?, Option.map_eq_some_iff] at h
  obtain ⟨last, hlast, rfl⟩ := h
  obtain ⟨front, hfront⟩ := List.getLast?_eq_some_iff.mp hlast
  exact ⟨front, last, hfront, by simp [hfront]⟩

theorem Proper.withSuffix? (h : path.Proper) (hempty : suffix ≠ "") (hslash : '/' ∉ suffix.toList)
    (hother : path.withSuffix? suffix = some other) : other.Proper := by
  obtain ⟨front, last, hnames, rfl⟩ := withSuffix?_eq_some hother
  have hfront (name : String) (hname : name ∈ front) : name ≠ "" ∧ '/' ∉ name.toList :=
    h.names name (by simp [hnames, hname])
  have hlast : '/' ∉ last.toList := (h.names last (by simp [hnames])).2
  refine ⟨h.root, fun name hname => ?_⟩
  rcases List.mem_append.mp hname with hname | hname
  · exact hfront name hname
  · rw [List.mem_singleton] at hname
    subst hname
    refine ⟨by simp [hempty], ?_⟩
    simpa [hslash] using fun hmem => hlast (mem_of_mem_stem hmem)

theorem toList_text (hnames : path.names ≠ []) :
    path.text.toList = path.root.toList ++ ['/'].intercalate (path.names.map String.toList) := by
  simp [Path.text, hnames, String.toList_intercalate]

/-- The names that are joined start with a name. -/
theorem exists_first (h : path.Proper) (hnames : path.names ≠ []) :
    ∃ c rest, c ≠ '/' ∧ ['/'].intercalate (path.names.map String.toList) = c :: rest := by
  cases hlist : path.names with
  | nil => exact absurd hlist hnames
  | cons name names =>
    have hname := h.names name (by simp [hlist])
    cases hchars : name.toList with
    | nil => exact absurd (String.toList_eq_nil_iff.mp hchars) hname.1
    | cons c rest =>
      have hslash : c ≠ '/' := fun heq => hname.2 (by simp [hchars, heq])
      cases names with
      | nil => exact ⟨c, rest, hslash, by simp [hchars]⟩
      | cons second names =>
        refine ⟨c, rest ++ '/' :: ['/'].intercalate ((second :: names).map String.toList),
          hslash, ?_⟩
        simp [hchars, List.intercalate_cons_cons]

theorem rootOf_text (h : path.Proper) (hnames : path.names ≠ []) :
    rootOf path.text = path.root := by
  obtain ⟨c, rest, hslash, hfirst⟩ := exists_first h hnames
  rw [rootOf, toList_text hnames, hfirst]
  rcases h.root with hroot | hroot | hroot <;> simp [hroot, hslash]

theorem segments_text (h : path.Proper) (hnames : path.names ≠ []) :
    segments path.text = List.replicate path.root.length "" ++ path.names := by
  have hcut : cut (['/'].intercalate (path.names.map String.toList)) =
      path.names.map String.toList := by
    rw [cut_eq]
    refine List.splitOn_intercalate '/' ?_ (by simpa using hnames)
    simpa using fun name hname => (h.names name hname).2
  have hback : (path.names.map String.toList).map String.ofList = path.names := by simp
  rw [segments, toList_text hnames]
  rcases h.root with hroot | hroot | hroot <;> simp [hroot, cut, hcut] <;> rfl

/-- With another suffix, a path has the same root and the same names but for the last one. -/
theorem segments_of_withSuffix? (hempty : suffix ≠ "") (hslash : '/' ∉ suffix.toList)
    (h : (parse text).withSuffix? suffix = some other) :
    ∃ front last name, (segments text).filter (!staysInPlace ·) = front ++ [last] ∧
      segments other.text = List.replicate (rootOf text).length "" ++ (front ++ [name]) ∧
        rootOf other.text = rootOf text := by
  have hother := (proper_parse text).withSuffix? hempty hslash h
  obtain ⟨front, last, hnames, rfl⟩ := withSuffix?_eq_some h
  have hsome : front ++ [String.ofList (stem last.toList) ++ suffix] ≠ [] := by simp
  exact ⟨front, last, _, hnames, segments_text hother hsome, rootOf_text hother hsome⟩

end ScriptedPng.Path
