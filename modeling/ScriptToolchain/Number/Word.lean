/-!
# Results that fit a word

A sum or a difference of words may lie beyond every word. `signed?` and
`unsigned?` answer it where it fits 32 bits and nothing where a program that
checks its arithmetic breaks off.
-/

namespace ScriptToolchain.Word

/-- The numbers that a signed word of 32 bits holds. -/
def Signed (v : Int) : Prop :=
  -0x80000000 ≤ v ∧ v < 0x80000000

instance (v : Int) : Decidable (Signed v) :=
  inferInstanceAs (Decidable (_ ∧ _))

/-- The result, if it is a signed word. -/
def signed? (v : Int) : Option Int :=
  if Signed v then some v else none

/-- The result, if it is an unsigned word. -/
def unsigned? (n : Nat) : Option Nat :=
  if n < UInt32.size then some n else none

/-- What a program says that breaks off at a sum. -/
def overflowMessage : String :=
  "attempt to add with overflow"

variable {v : Int} {n : Nat}

theorem signed?_of_signed (h : Signed v) : signed? v = some v :=
  if_pos h

theorem signed?_of_not (h : ¬Signed v) : signed? v = none :=
  if_neg h

theorem unsigned?_of_lt (h : n < UInt32.size) : unsigned? n = some n :=
  if_pos h

theorem unsigned?_of_le (h : UInt32.size ≤ n) : unsigned? n = none :=
  if_neg (Nat.not_lt.mpr h)

end ScriptToolchain.Word
