import ScriptToolchain.Bytes.Basic

/-!
# Growable byte buffer with a cursor

A write replaces the bytes under the cursor and extends the buffer when it
runs past the end, so a word that was left open can be filled in later: move
the cursor back, write, move it forward again.
-/

namespace ScriptToolchain

/-- The bytes written so far and the position of the next write. -/
structure Buffer where
  data : Bytes := #[]
  cursor : Nat := 0
deriving Repr, DecidableEq

namespace Buffer

/-- The number of bytes held. -/
def size (b : Buffer) : Nat :=
  b.data.size

/-- Nothing has been written. -/
def isEmpty (b : Buffer) : Bool :=
  b.data.isEmpty

/-- Writes `bytes` at the cursor and moves past them. A gap left by a seek holds zeros. -/
def write (b : Buffer) (bytes : Bytes) : Buffer :=
  { data := b.data.store b.cursor bytes, cursor := b.cursor + bytes.size }

/-- Writes a 32-bit word at the cursor. -/
def writeWord32 (b : Buffer) (v : UInt32) : Buffer :=
  b.write (Bytes.ofWord32 v)

/-- Writes a 64-bit word at the cursor. -/
def writeWord64 (b : Buffer) (v : UInt64) : Buffer :=
  b.write (Bytes.ofWord64 v)

/--
Sets the `n` bytes at the cursor to `fill` and moves past them. When they reach past the end,
every byte that the buffer grows by holds `fill`, those of a gap before the cursor too.
-/
def skip (b : Buffer) (n : Nat) (fill : UInt8) : Buffer :=
  let stop := b.cursor + n
  let grown := b.data ++ Array.replicate (stop - b.data.size) fill
  { data := grown.store b.cursor (Array.replicate n fill), cursor := stop }

/-- Moves the cursor; any position is allowed. -/
def seek (b : Buffer) (position : Nat) : Buffer :=
  { b with cursor := position }

/-- No bytes, cursor at the start. -/
def clear (_ : Buffer) : Buffer :=
  {}

end Buffer

end ScriptToolchain
