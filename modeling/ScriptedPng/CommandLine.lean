import ScriptedPng.Path
import ScriptedPng.Report

/-!
# The command line

Without arguments the source is read from the standard input and the image is written to the
standard output. Otherwise every argument is the path of a source, whose image is written to a file
beside it; the file is removed again if the source cannot be compiled. All that the command line
does to its surroundings goes through a `Host`.

## Main definitions

* `CommandLine.Host` — what the command line needs of its surroundings.
* `CommandLine.outputPath?` — the path of the image of a source.
* `CommandLine.run` — runs the command line.
-/

namespace ScriptedPng.CommandLine

/-- Why the command line ends before everything is done. -/
inductive Fault where
  /-- A path has no name to put a suffix to. -/
  | nameless (path : String)
  /-- A path has a character that no path can have. -/
  | unusable (path : String)
  | failure (failure : Failure)
deriving DecidableEq

/-- What the command line needs of its surroundings. -/
class Host (m : Type → Type) where
  /-- A source that has been opened. -/
  Input : Type
  /-- A file, or the standard output, that can be written. -/
  Output : Type
  standardInput : Input
  standardOutput : Output
  /-- Opens a source, or tells why that fails. -/
  openInput (path : String) : m (Except String Input)
  /-- Makes an empty file, or tells why that fails. -/
  createOutput (path : String) : m (Except String Output)
  /-- All that can be read from a source. -/
  read (input : Input) : m Source
  /-- Carries out the writes, and completes them; an empty sink with the faults that have shown up.
  -/
  write (output : Output) (writes : List Octets) : m Png.Sink
  remove (path : String) : m Unit
  /-- Shows a text on the standard output. -/
  print (text : String) : m Unit
  /-- Shows a text on the standard error output. -/
  complain (text : String) : m Unit
  /-- Ends everything. -/
  abort {α : Type} (fault : Fault) : m α

/-- The path of the image of a source. -/
def outputPath? (path : String) : Option String :=
  ((Path.parse path).withSuffix? ".png").map Path.text

/-- How the program is to be used. -/
def usage (program : String) : String :=
  s!"usage: {program} [file.sng ...]\n\n" ++
    "Compile SNG sources into PNG images. Without arguments read from stdin and\n" ++
    "write to stdout. Set the environment variable DEBUG to see what happens.\n"

/-- The arguments that ask for the usage. -/
def helpOptions : List String := ["-h", "--help"]

/-- The name of the standard input in reports. -/
def standardInputName : String := "stdin"

variable {m : Type → Type} [Monad m] [Host m] [Diagnostic.Quotes]

/-- Compiles an open source to an output, and reports on it. What is to be written does not depend
on the output; its faults only cut the writes short. -/
def compileTo (name : String) (input : Host.Input m) (output : Host.Output m) : m Status := do
  let source ← Host.read input
  let sink ← Host.write output (compile source {}).2.writer.sink.written
  match Report.ofResult name (compile source sink).1 with
  | .ok report =>
    Host.complain report.text
    return report.status
  | .error failure => Host.abort (.failure failure)

/-- Compiles the source at a path to the file beside it. -/
def compileFile (path : String) : m Status := do
  let some imagePath := outputPath? path | Host.abort (.nameless path)
  match ← Host.openInput path with
  | .error reason =>
    Host.complain s!"{path}: can't open: {reason}\n"
    return .badSource
  | .ok input =>
    match ← Host.createOutput imagePath with
    | .error reason =>
      Host.complain s!"{imagePath}: can't create: {reason}\n"
      return .badImage
    | .ok output =>
      let status ← compileTo path input output
      if status ≠ .success then Host.remove imagePath
      return status

/-- Compiles the sources at the paths one by one; the gravest status counts. -/
def compileFiles (paths : List String) : m Nat := do
  let statuses ← paths.mapM compileFile
  return (statuses.map Status.code).foldl max 0

/-- Runs the command line; gives the number that stands for its status. -/
def run (program : String) (arguments : List String) : m Nat :=
  if arguments.any (· ∈ helpOptions) then do
    Host.print (usage (Path.fileName program))
    return Status.success.code
  else if arguments = [] then
    Status.code <$> compileTo standardInputName (Host.standardInput (m := m)) Host.standardOutput
  else
    compileFiles arguments

end ScriptedPng.CommandLine
