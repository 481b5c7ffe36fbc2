import ScriptToolchain.Text.Digits

/-!
# Code addresses

An instruction of a program is known by its function and the offset in the
code of that function. Addresses are ordered by function, then by offset.
-/

namespace ScriptToolchain.Debug

/-- The address of an instruction. -/
structure CodeAddress where
  function : UInt64
  offset : UInt32
deriving Repr, DecidableEq

namespace CodeAddress

/-- There is an address so many bytes further on, as there is behind every mark of code below 2^32
bytes. -/
def HasRoom (a : CodeAddress) (delta : UInt32) : Prop :=
  a.offset.toNat + delta.toNat < UInt32.size

/-- The address `delta` bytes further on in the same function, if there is room for it. -/
def advance (a : CodeAddress) (delta : UInt32) : CodeAddress :=
  { a with offset := a.offset + delta }

theorem offset_advance {a : CodeAddress} {delta : UInt32} (h : a.HasRoom delta) :
    (a.advance delta).offset.toNat = a.offset.toNat + delta.toNat := by
  rw [advance, UInt32.toNat_add, Nat.mod_eq_of_lt h]

/-- The address as it is shown. -/
def text (a : CodeAddress) : String :=
  s!"fn#{a.function}@{Text.zeroPadded 4 a.offset.toNat}"

instance : LT CodeAddress where
  lt a b := a.function < b.function ∨ (a.function = b.function ∧ a.offset < b.offset)

instance : DecidableLT CodeAddress := fun a b =>
  inferInstanceAs (Decidable (a.function < b.function ∨
    (a.function = b.function ∧ a.offset < b.offset)))

end CodeAddress

end ScriptToolchain.Debug
