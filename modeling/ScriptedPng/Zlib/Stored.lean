import ScriptedPng.Checksum.Adler32

/-!
# Zlib streams of stored blocks

The zlib format wraps a sequence of octets in a two-octet header, blocks, and an Adler-32 checksum.
Streams written here hold stored blocks alone: a mark for the last block, the length, its
complement, and the octets as they are. Such blocks never look back, so the header announces the
smallest window.

## Main definitions

* `Zlib.compress` — the stream that holds the octets.
* `Zlib.decompress?` — the octets in such a stream.
-/

namespace ScriptedPng.Zlib

/-- Deflate with a window of 256 octets; the two octets together are a multiple of 31. -/
def streamHeader : Octets := [0x08, 0x1d]

/-- The length of the largest stored block. -/
def blockLimit : Nat := 65535

/-- A stored block. -/
def storedBlock (final : Bool) (octets : Octets) : Octets :=
  (if final then 1 else 0) :: (Octets.big 2 octets.length).reverse
    ++ (Octets.big 2 (blockLimit - octets.length)).reverse ++ octets

/-- One stored block for each piece, the last one marked; one empty block if there is none. -/
def storedBlocks : List Octets → Octets
  | [] => storedBlock true []
  | [piece] => storedBlock true piece
  | piece :: rest => storedBlock false piece ++ storedBlocks rest

/-- The zlib stream that holds the octets in stored blocks. -/
def compress (octets : Octets) : Octets :=
  streamHeader ++ storedBlocks (octets.pieces (blockLimit - 1))
    ++ Octets.big 4 (Checksum.adler32 octets)

/-- Reads stored blocks up to the one marked as last: the octets they hold and what follows. -/
def readBlocks (stream : Octets) : Option (Octets × Octets) :=
  match stream with
  | mark :: low :: high :: lowComplement :: highComplement :: rest =>
    let length := Octets.number [high, low]
    if length + Octets.number [highComplement, lowComplement] ≠ blockLimit
        ∨ rest.length < length then
      none
    else if mark = 1 then
      some (rest.take length, rest.drop length)
    else if mark = 0 then
      (readBlocks (rest.drop length)).map fun (octets, after) => (rest.take length ++ octets, after)
    else
      none
  | _ => none
termination_by stream.length
decreasing_by simp only [List.length_drop, List.length_cons]; omega

/-- The octets in a zlib stream of stored blocks whose checksum is right; `none` for anything
else. -/
def decompress? (stream : Octets) : Option Octets :=
  if streamHeader.isPrefixOf stream then
    match readBlocks (stream.drop 2) with
    | some (octets, trailer) =>
      if trailer = Octets.big 4 (Checksum.adler32 octets) then some octets else none
    | none => none
  else
    none

end ScriptedPng.Zlib
