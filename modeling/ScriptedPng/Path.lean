/-!
# Paths

A path is a text of names between slashes. The image made of a source stands beside it, under the
same name with another suffix.

## Main definitions

* `Path.segments` — the texts between the slashes.
* `Path` — a path without the segments that stay in place.
* `Path.withSuffix?` — the path with another suffix of its last name.
* `Path.fileName` — the last name of a path as it is.
-/

namespace ScriptedPng

/-- A path without empty segments and single dots. -/
structure Path where
  /-- The slashes that an absolute path starts with. -/
  root : String
  names : List String
deriving DecidableEq, Repr

namespace Path

/-- Cuts a text at its slashes. -/
def cut : List Char → List (List Char)
  | [] => [[]]
  | c :: rest =>
    if c = '/' then [] :: cut rest
    else
      match cut rest with
      | [] => [[c]]
      | segment :: segments => (c :: segment) :: segments

/-- The texts between the slashes. -/
def segments (path : String) : List String :=
  (cut path.toList).map String.ofList

/-- Exactly two slashes at the start are kept; any other number of them is as good as one. -/
def rootOf (path : String) : String :=
  match (path.toList.takeWhile (· = '/')).length with
  | 0 => ""
  | 2 => "//"
  | _ => "/"

/-- A segment that stays in the same place. -/
def staysInPlace (segment : String) : Bool :=
  segment = "" || segment = "."

/-- The path that a text is. -/
def parse (path : String) : Path where
  root := rootOf path
  names := (segments path).filter fun segment => !staysInPlace segment

/-- The text of a path; a path that leads nowhere is a dot. -/
def text (path : Path) : String :=
  if path.root = "" ∧ path.names = [] then "." else path.root ++ "/".intercalate path.names

/-- A name without its suffix. The suffix starts at the last dot, and has more than the dot. A dot
at the start of the name starts no suffix. -/
def stem (name : List Char) : List Char :=
  let suffix := name.reverse.takeWhile (· ≠ '.')
  let stem := name.take (name.length - suffix.length - 1)
  if '.' ∉ name ∨ suffix = [] ∨ stem = [] then name else stem

/-- The path with another suffix of its last name; `none` if it has no name. -/
def withSuffix? (suffix : String) (path : Path) : Option Path :=
  path.names.getLast?.map fun name =>
    { path with names := path.names.dropLast ++ [String.ofList (stem name.toList) ++ suffix] }

/-- The last name of a path as it is, which is empty behind a slash. -/
def fileName (path : String) : String :=
  (segments path).getLast?.getD ""

theorem cut_ne_nil (path : List Char) : cut path ≠ [] := by
  fun_cases cut path <;> simp_all

end Path

end ScriptedPng
