import ScriptedPng.Octets

/-!
# CRC-32

The cyclic redundancy check of PNG frames: polynomial `0xedb88320` in reflected form, register
preset to ones and complemented at the end.

## Main definitions

* `Checksum.crc32` — the check of a sequence of octets.
-/

namespace ScriptedPng.Checksum

/-- Shifts one bit out of the register. -/
def crcShift (register : UInt32) : UInt32 :=
  if register &&& 1 = 1 then (register >>> 1) ^^^ 0xedb88320 else register >>> 1

/-- Takes one octet into the register, the least significant bit first. -/
def crcStep (register : UInt32) (octet : UInt8) : UInt32 :=
  Nat.repeat crcShift 8 (register ^^^ octet.toUInt32)

/-- The CRC-32 of the octets. -/
def crc32 (octets : Octets) : UInt32 :=
  octets.foldl crcStep 0xffffffff ^^^ 0xffffffff

end ScriptedPng.Checksum
