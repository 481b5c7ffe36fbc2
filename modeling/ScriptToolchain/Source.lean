import ScriptToolchain.Bytes.Checksum

/-!
# Source texts

The sources that a debug build refers to. A source is known by the checksum of
its text, so a text that is registered twice is held once.
-/

namespace ScriptToolchain

/-- A source text. -/
structure SourceEntry where
  id : UInt32
  name : String
  text : String
deriving Repr, DecidableEq

/-- Sources in the order in which they were registered. -/
structure SourceTable where
  entries : List SourceEntry := []
deriving Repr, DecidableEq

namespace SourceTable

/-- The id of a text. -/
def idOf (text : String) : UInt32 :=
  Checksum.crc32 (Bytes.ofText text)

/-- The name of a source that was given none. -/
def unnamed : String :=
  "unknown"

/-- The source with this id. -/
def get? (t : SourceTable) (id : UInt32) : Option SourceEntry :=
  t.entries.find? (·.id = id)

/-- Registers a text and answers its id; the first text with an id stays. -/
def add (t : SourceTable) (text : String) (name : Option String) : UInt32 × SourceTable :=
  let id := idOf text
  match t.get? id with
  | some _ => (id, t)
  | none => (id, { entries := t.entries ++ [{ id, name := name.getD unnamed, text }] })

/-- The number of sources. -/
def size (t : SourceTable) : Nat :=
  t.entries.length

end SourceTable

end ScriptToolchain
