import ScriptToolchain.Bytes.Basic

/-!
# CRC-32

The reflected cyclic redundancy check of the polynomial `0x04C11DB7`: the
remainder starts with all bits set, takes in each byte low bit first, and is
complemented at the end.
-/

namespace ScriptToolchain.Checksum

/-- The generator polynomial, bits reversed. -/
def polynomial : UInt32 := 0xEDB88320

/-- Takes one bit out of the remainder. -/
def shift (c : UInt32) : UInt32 :=
  if c &&& 1 == 1 then (c >>> 1) ^^^ polynomial else c >>> 1

/-- Takes one byte into the remainder. -/
def step (c : UInt32) (b : UInt8) : UInt32 :=
  shift (shift (shift (shift (shift (shift (shift (shift (c ^^^ b.toUInt32))))))))

/-- The CRC-32 of a byte string. -/
def crc32 (bytes : Bytes) : UInt32 :=
  ~~~ bytes.foldl step 0xFFFFFFFF

end ScriptToolchain.Checksum
