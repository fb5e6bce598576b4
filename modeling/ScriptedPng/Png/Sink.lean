import ScriptedPng.Octets

/-!
# Sinks

What octets are written to. A sink remembers each write. It may have room for some writes only; the
later ones fail and write nothing. Flushing it may fail as well.

## Main definitions

* `Png.Sink` — the writes that have succeeded, and what will fail.
* `Sink.write`, `Sink.flush` — writes octets, and completes the writes.
-/

namespace ScriptedPng.Png

/-- What octets are written to. -/
structure Sink where
  /-- The writes that have succeeded. -/
  written : List Octets := []
  /-- How many more writes succeed, and why later ones fail. -/
  room : Option (Nat × String) := none
  /-- Why flushing fails, if it does. -/
  flushFault : Option String := none
deriving DecidableEq, Repr

namespace Sink

/-- All octets written. -/
def octets (sink : Sink) : Octets :=
  sink.written.flatten

/-- Writes octets, or tells why that fails. -/
def write (octets : Octets) (sink : Sink) : Except String Sink :=
  match sink.room with
  | none => .ok { sink with written := sink.written ++ [octets] }
  | some (0, reason) => .error reason
  | some (room + 1, reason) =>
    .ok { sink with written := sink.written ++ [octets], room := some (room, reason) }

/-- Completes the writes, or tells why that fails. -/
def flush (sink : Sink) : Except String Unit :=
  match sink.flushFault with
  | none => .ok ()
  | some reason => .error reason

theorem octets_of_write {octets : Octets} {sink after : Sink}
    (h : sink.write octets = .ok after) : after.octets = sink.octets ++ octets := by
  simp only [write] at h
  split at h <;> simp_all [Sink.octets] <;> subst h <;> simp

end Sink

end ScriptedPng.Png
