import Std.Data.TreeMap

/-!
# Interned texts

Every text gets a number when it is first seen: the number of texts seen
before it. The same text gets the same number again.
-/

namespace ScriptToolchain

/-- Texts in the order in which they were first seen. -/
structure Interner where
  positions : Std.TreeMap String Nat := {}
  /-- The texts, the latest first. -/
  latest : List String := []
  size : Nat := 0

namespace Interner

/-- The number of a text. -/
def position? (t : Interner) (s : String) : Option Nat :=
  t.positions[s]?

/-- The number of a text, which is added if it is new. -/
def intern (t : Interner) (s : String) : Nat × Interner :=
  match t.position? s with
  | some i => (i, t)
  | none =>
    (t.size,
      { positions := t.positions.insert s t.size
        latest := s :: t.latest
        size := t.size + 1 })

/-- The texts in the order of their numbers. -/
def toList (t : Interner) : List String :=
  t.latest.reverse

end Interner

end ScriptToolchain
