import ScriptedPng.Octets
import ScriptedPng.Path

/-!
# Trees of files

Files and directories, named from the root on, and the working directory among them. A path is
followed segment by segment, and each segment needs a directory to start from: an absolute path
starts from the root, any other one from the working directory. There are no links, and nothing
forbids to read or write a file.

## Main definitions

* `FileTree` — the entries of the tree.
* `FileTree.follow` — the place where a path leads.
* `FileTree.read`, `FileTree.create`, `FileTree.write`, `FileTree.remove` — access to files.
-/

namespace ScriptedPng

/-- What a tree holds. -/
inductive FileTree.Entry where
  | file (content : Octets)
  | directory
deriving DecidableEq, Repr

/-- A place: the names that lead to it from the root on, the outermost directory first. -/
abbrev FileTree.Place := List String

/-- The entries below the root, and the place of the working directory. -/
structure FileTree where
  entries : List (FileTree.Place × FileTree.Entry) := []
  workingDirectory : FileTree.Place := []
deriving DecidableEq, Repr

namespace FileTree

/-- Why a path does not lead to what is wanted. -/
inductive Fault where
  | missing
  | isDirectory
  | notDirectory
  | nameTooLong
deriving DecidableEq, Repr

/-- The wording of a fault. -/
def Fault.message : Fault → String
  | missing => "No such file or directory"
  | isDirectory => "Is a directory"
  | notDirectory => "Not a directory"
  | nameTooLong => "File name too long"

/-- A name has at most so many octets. -/
def nameLimit : Nat := 255

/-- A path has fewer octets than this. -/
def pathLimit : Nat := 4096

/-- The entry at a place. The root is a directory. -/
def entry? (tree : FileTree) : Place → Option Entry
  | [] => some .directory
  | place => tree.entries.lookup place

/-- Follows a segment of a path, which must start from a directory. The root is its own parent. -/
def step (tree : FileTree) (place : Place) (segment : String) : Except Fault Place :=
  match tree.entry? place with
  | none => .error .missing
  | some (.file _) => .error .notDirectory
  | some .directory =>
    if Path.staysInPlace segment then .ok place
    else if segment = ".." then .ok place.dropLast
    else if nameLimit < segment.utf8ByteSize then .error .nameTooLong
    else .ok (place ++ [segment])

/-- The place that a path is followed from. -/
def start (tree : FileTree) (path : String) : Place :=
  if Path.rootOf path = "" then tree.workingDirectory else []

/-- The place where a path leads; there need not be an entry. -/
def follow (tree : FileTree) (path : String) : Except Fault Place :=
  if path = "" then .error .missing
  else if pathLimit ≤ path.utf8ByteSize then .error .nameTooLong
  else (Path.segments path).foldlM tree.step (tree.start path)

/-- The place of the file where a path leads. -/
def find (tree : FileTree) (path : String) : Except Fault Place := do
  let place ← tree.follow path
  match tree.entry? place with
  | none => throw .missing
  | some .directory => throw .isDirectory
  | some (.file _) => return place

/-- The content of the file at a place. -/
def read (tree : FileTree) (place : Place) : Octets :=
  match tree.entry? place with
  | some (.file content) => content
  | _ => []

/-- Puts an entry to a place. -/
def put (tree : FileTree) (place : Place) (entry : Entry) : FileTree :=
  { tree with entries := (place, entry) :: tree.entries.filter (·.1 ≠ place) }

/-- Makes the file where a path leads an empty one. -/
def create (tree : FileTree) (path : String) : Except Fault (Place × FileTree) := do
  let place ← tree.follow path
  match tree.entry? place with
  | some .directory => throw .isDirectory
  | _ => return (place, tree.put place (.file []))

/-- Replaces the content of the file at a place. -/
def write (tree : FileTree) (place : Place) (content : Octets) : FileTree :=
  tree.put place (.file content)

/-- Removes the entry where a path leads. -/
def remove (tree : FileTree) (path : String) : FileTree :=
  match tree.follow path with
  | .ok place => { tree with entries := tree.entries.filter (·.1 ≠ place) }
  | .error _ => tree

end FileTree

end ScriptedPng
