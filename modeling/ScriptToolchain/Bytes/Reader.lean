import ScriptToolchain.Bytes.Basic

/-!
# Reading a byte string in order

A reader is a byte string and an offset, which may lie past the end. A read
answers the bytes at the offset and moves past them, or fails and stays.
-/

namespace ScriptToolchain

/-- A byte string and the offset of the next read. -/
structure Reader where
  data : Bytes
  offset : Nat := 0
deriving Repr, DecidableEq

/-- Why a read fails. -/
inductive ReadError where
  /-- Fewer than `needed` bytes are left at `offset`. -/
  | unexpectedEnd (needed offset : Nat)
  /-- Nothing was asked for, but at `offset`, which lies past the end. -/
  | outOfRange (offset : Nat)
  /-- No zero byte ends the text that starts at `offset`. -/
  | unterminated (offset : Nat)
  /-- The bytes of a text are not UTF-8. -/
  | invalidUtf8
deriving Repr, DecidableEq

/-- The failure in words. -/
def ReadError.message : ReadError → String
  | .unexpectedEnd needed offset => s!"unexpected end of stream: need {needed} bytes at {offset}"
  | .outOfRange offset => s!"offset {offset} lies past the end of the stream"
  | .unterminated offset => s!"unterminated string at {offset}"
  | .invalidUtf8 => "invalid utf-8"

/-- A step of reading. -/
abbrev Read := EStateM ReadError Reader

namespace Reader

/-- The number of bytes from the offset on. -/
def remaining (r : Reader) : Nat :=
  r.data.size - r.offset

/-- The bytes from the offset on. -/
def rest (r : Reader) : Bytes :=
  r.data.extract r.offset r.data.size

/-- Moves to an offset, also past the end. -/
def seek (offset : Nat) : Read Unit := fun r =>
  .ok () { r with offset }

/-- Reads `n` bytes. -/
def take (n : Nat) : Read Bytes := fun r =>
  if r.remaining < n then
    .error (.unexpectedEnd n r.offset) r
  else if r.data.size < r.offset then
    .error (.outOfRange r.offset) r
  else
    .ok (r.data.extract r.offset (r.offset + n)) { r with offset := r.offset + n }

/-- Reads a byte. -/
def byte : Read UInt8 :=
  return (← take 1).foldr (fun b _ => b) 0

/-- Reads a 16-bit word. -/
def word16 : Read UInt16 :=
  return (← take 2).toWord16

/-- Reads a 32-bit word. -/
def word32 : Read UInt32 :=
  return (← take 4).toWord32

/-- Reads a 64-bit word. -/
def word64 : Read UInt64 :=
  return (← take 8).toWord64

/-- Reads a text and the zero byte that ends it. -/
def text : Read String := fun r =>
  let found := r.rest.untilZero
  if found.size < r.rest.size then
    match found.toText? with
    | some s => .ok s { r with offset := r.offset + found.size + 1 }
    | none => .error .invalidUtf8 r
  else
    .error (.unterminated r.offset) r

end Reader

end ScriptToolchain
