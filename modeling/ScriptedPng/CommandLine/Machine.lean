import ScriptedPng.CommandLine
import ScriptedPng.FileTree

/-!
# A machine for the command line

The surroundings of the command line as a value: a tree of files and the three standard streams. All
writes succeed.

## Main definitions

* `CommandLine.Machine` — the tree and the streams.
* `CommandLine.Machine.Action` — the actions on a machine, which form a `Host`.
-/

namespace ScriptedPng.CommandLine

/-- A tree of files and the three standard streams. -/
structure Machine where
  tree : FileTree := {}
  input : Source := .ofOctets []
  output : Octets := []
  /-- The text on the standard error output. -/
  errors : String := ""
deriving DecidableEq

namespace Machine

/-- An action on a machine, which may end everything; what it has done stays done. -/
abbrev Action := EStateM Fault Machine

/-- A standard stream or the place of a file. -/
inductive Stream where
  | standard
  | file (place : FileTree.Place)
deriving DecidableEq, Repr

/-- A path has a name for every file, but no name has this character. -/
def isUsable (path : String) : Bool :=
  '\x00' ∉ path.toList

/-- Opens the file where a path leads. -/
def openInput (path : String) : Action (Except String Stream) := fun machine =>
  if isUsable path then
    .ok (((machine.tree.find path).map .file).mapError FileTree.Fault.message) machine
  else .error (.unusable path) machine

/-- Makes the file where a path leads an empty one. -/
def createOutput (path : String) : Action (Except String Stream) := fun machine =>
  match machine.tree.create path with
  | .ok (place, tree) => .ok (.ok (.file place)) { machine with tree }
  | .error fault => .ok (.error fault.message) machine

/-- All that can be read from a stream. -/
def read (stream : Stream) : Action Source := fun machine =>
  match stream with
  | .standard => .ok machine.input machine
  | .file place => .ok (.ofOctets (machine.tree.read place)) machine

/-- Writes to a stream. -/
def write (stream : Stream) (writes : List Octets) : Action Png.Sink := fun machine =>
  match stream with
  | .standard => .ok {} { machine with output := machine.output ++ writes.flatten }
  | .file place => .ok {} { machine with tree := machine.tree.write place writes.flatten }

instance : Host Action where
  Input := Stream
  Output := Stream
  standardInput := .standard
  standardOutput := .standard
  openInput := openInput
  createOutput := createOutput
  read := read
  write := write
  remove path := modify fun machine => { machine with tree := machine.tree.remove path }
  print text := modify fun machine =>
    { machine with output := machine.output ++ text.toUTF8.toList }
  complain text := modify fun machine => { machine with errors := machine.errors ++ text }
  abort fault := throw fault

/-- Runs the command line on a machine. -/
def run [Diagnostic.Quotes] (program : String) (arguments : List String) (machine : Machine) :
    EStateM.Result Fault Machine Nat :=
  CommandLine.run (m := Action) program arguments machine

end Machine

end ScriptedPng.CommandLine
