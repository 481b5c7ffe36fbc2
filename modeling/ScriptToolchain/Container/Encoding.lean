import ScriptToolchain.Bytes.Reader

/-!
# Counted items

The containers store a text or a list behind its count, a word of 32 bits. On
the way back a count is never trusted: reading stops at the first item that
the bytes do not hold.
-/

namespace ScriptToolchain

namespace Bytes

/-- A count as a word. -/
def ofCount (n : Nat) : Bytes :=
  ofWord32 (saturate32 n)

/-- Bytes behind their count. -/
def counted (b : Bytes) : Bytes :=
  ofCount b.size ++ b

/-- A text behind its count of bytes. -/
def countedText (s : String) : Bytes :=
  counted (ofText s)

/-- Items one behind the other. -/
def concat {α : Type} (item : α → Bytes) (items : List α) : Bytes :=
  items.foldl (fun acc a => acc ++ item a) #[]

/-- Items behind their count. -/
def countedList {α : Type} (item : α → Bytes) (items : List α) : Bytes :=
  ofCount items.length ++ concat item items

end Bytes

namespace Reader

/-- A read whose failure is another error. -/
def orFail {ε α : Type} (error : ε) (r : Read α) : EStateM ε Reader α := fun s =>
  match r s with
  | .ok a s => .ok a s
  | .error _ s => .error error s

/-- Reads `n` items, which are told their position. -/
def times {ε α : Type} (item : Nat → EStateM ε Reader α) (position : Nat) :
    Nat → EStateM ε Reader (List α)
  | 0 => return []
  | n + 1 => do
    let a ← item position
    let rest ← times item (position + 1) n
    return a :: rest

/-- A read behind which no byte may be left. -/
def toEnd {ε α : Type} (error : ε) (read : EStateM ε Reader α) : EStateM ε Reader α := do
  let a ← read
  if (← get).remaining ≠ 0 then
    throw error
  return a

end Reader

end ScriptToolchain
