import ScriptedPng.CommandLine

/-!
# The program

The surroundings of the command line as they are: files, standard streams, and a status for the
caller.
-/

namespace ScriptedPng.CommandLine

/-- The reason in an error of the system. -/
def reason : IO.Error → String
  | .noFileOrDirectory _ _ details | .inappropriateType _ _ details
  | .permissionDenied _ _ details | .resourceExhausted _ _ details
  | .hardwareFault _ details | .otherError _ details => details
  | error => toString error

/-- The result of an action, or the reason why it fails. -/
def attempt {α : Type} (action : IO α) : IO (Except String α) := do
  match ← action.toBaseIO with
  | .ok value => return .ok value
  | .error error => return .error (reason error)

/-- How many octets are read at once. -/
def readSize : USize := 65536

/-- Reads octets up to the end, or to a failure. -/
partial def readRest (stream : IO.FS.Stream) (octets : Octets) : IO Source := do
  match ← attempt (stream.read readSize) with
  | .error reason => return (Source.ofOctets octets).failingAfter octets.length reason
  | .ok more =>
    if more.isEmpty then return .ofOctets octets
    else readRest stream (octets ++ more.toList)

/-- Carries out the writes, of which some have been carried out before. -/
def writeAll (stream : IO.FS.Stream) (done : Nat) : List Octets → IO Png.Sink
  | [] => do
    match ← attempt stream.flush with
    | .ok () => return {}
    | .error reason => return { flushFault := some reason }
  | octets :: rest => do
    match ← attempt (stream.write ⟨octets.toArray⟩) with
    | .ok () => writeAll stream (done + 1) rest
    | .error reason => return { room := some (done, reason) }

instance : Host IO where
  Input := IO IO.FS.Stream
  Output := IO IO.FS.Stream
  standardInput := IO.getStdin
  standardOutput := IO.getStdout
  openInput path := attempt do
    let probe ← IO.FS.Handle.mk path .read
    let _ ← probe.read 1
    let handle ← IO.FS.Handle.mk path .read
    return pure (IO.FS.Stream.ofHandle handle)
  createOutput path := attempt do
    let handle ← IO.FS.Handle.mk path .write
    return pure (IO.FS.Stream.ofHandle handle)
  read input := do readRest (← input) []
  write output writes := do writeAll (← output) 0 writes
  remove path := IO.FS.removeFile path
  print text := IO.print text
  complain text := IO.eprint text
  abort
    | .nameless path => throw (IO.userError s!"{path}: path without a name")
    | .unusable path => throw (IO.userError s!"{path}: path with a null character")
    | .failure _ => throw (IO.userError "number out of range")

end ScriptedPng.CommandLine

/-- Compiles the sources named by the arguments. -/
def main (arguments : List String) : IO UInt32 := do
  let _ : ScriptedPng.Diagnostic.Quotes := .plain
  let program ← IO.appPath
  let status ← ScriptedPng.CommandLine.run (m := IO) program.toString arguments
  return status.toUInt32
