import ScriptToolchain.Bytes.Basic

/-!
# Byte slot of fixed size

A slot is written from its start and never grows: a put that does not fit is
refused, and puts made before it stay.
-/

namespace ScriptToolchain

/-- A fixed number of bytes, of which those before the cursor have been written. -/
structure Slot where
  data : Bytes
  cursor : Nat := 0
deriving Repr, DecidableEq

/-- A put of `requested` bytes at `offset` that a slot of `capacity` bytes has no room for. -/
structure Overflow where
  requested : Nat
  offset : Nat
  capacity : Nat
deriving Repr, DecidableEq

/-- The refusal in words. -/
def Overflow.message (e : Overflow) : String :=
  s!"fixed stream overflow: {e.requested} bytes at {e.offset}, capacity {e.capacity}"

namespace Slot

/-- The number of bytes that fit. -/
def capacity (s : Slot) : Nat :=
  s.data.size

/-- The part written so far. -/
def written (s : Slot) : Bytes :=
  s.data.extract 0 s.cursor

/-- Writes `bytes` at the cursor, all of them or none. -/
def put (bytes : Bytes) : EStateM Overflow Slot Unit := fun s =>
  if s.cursor + bytes.size ≤ s.capacity then
    .ok () { data := s.data.store s.cursor bytes, cursor := s.cursor + bytes.size }
  else
    .error { requested := bytes.size, offset := s.cursor, capacity := s.capacity } s

end Slot

end ScriptToolchain
