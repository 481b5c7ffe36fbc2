import ScriptToolchain.Text.Blank
import ScriptToolchain.Text.Digits

/-!
# Flags of a node

A set of flags is a byte. Two of its bits have a name; the others are kept.
The text of a set lists the names, then what is left in base 16, with bars
between them. Reading allows blanks around every part.
-/

namespace ScriptToolchain

/-- A set of flags. -/
structure NodeFlags where
  bits : UInt8 := 0
deriving Repr, DecidableEq

namespace NodeFlags

/-- The identifier names a member of the receiver. -/
def isMember : NodeFlags := ⟨1⟩

/-- The expression stands as a statement and its result is dropped. -/
def popResult : NodeFlags := ⟨2⟩

/-- The flags of both sets. -/
def union (a b : NodeFlags) : NodeFlags :=
  ⟨a.bits ||| b.bits⟩

/-- All flags of `b` are in `a`. -/
def contains (a b : NodeFlags) : Bool :=
  a.bits &&& b.bits == b.bits

/-- The flags that have a name. -/
def named : List (String × NodeFlags) :=
  [("IS_MEMBER", isMember), ("POP_RESULT", popResult)]

/-- The bits that have no name. -/
def unnamedBits (f : NodeFlags) : UInt8 :=
  f.bits &&& ~~~ (isMember.union popResult).bits

/-- The set as text. -/
def text (f : NodeFlags) : String :=
  let names := (named.filter fun (_, flag) => f.contains flag).map (·.1)
  let rest := if f.unnamedBits = 0 then [] else ["0x" ++ Text.hex f.unnamedBits.toNat]
  " | ".intercalate (names ++ rest)

/-- The value of a digit in base 16. -/
def digit16? (c : Char) : Option Nat :=
  if '0' ≤ c ∧ c ≤ '9' then some (c.toNat - 48)
  else if 'a' ≤ c ∧ c ≤ 'f' then some (c.toNat - 87)
  else if 'A' ≤ c ∧ c ≤ 'F' then some (c.toNat - 55)
  else none

/-- The value of digits in base 16, if one byte holds it. -/
def byteOfDigits? (acc : Nat) : List Char → Option UInt8
  | [] => some acc.toUInt8
  | c :: rest =>
    match digit16? c with
    | some d => if acc * 16 + d < 256 then byteOfDigits? (acc * 16 + d) rest else none
    | none => none

/-- A number in base 16 behind its `0x`; one plus sign may stand before the digits. -/
def byte? (s : List Char) : Option UInt8 :=
  let digits := match s with
    | '+' :: rest => rest
    | rest => rest
  if digits.isEmpty then none else byteOfDigits? 0 digits

/-- A name, or a number in base 16. -/
def part? (s : List Char) : Option NodeFlags :=
  match s with
  | '0' :: 'x' :: rest => (byte? rest).map NodeFlags.mk
  | name => (named.find? fun (n, _) => n.toList = name).map (·.2)

/-- The union of the parts, each without the blanks around it. -/
def ofParts? : List (List Char) → Option NodeFlags
  | [] => some {}
  | part :: rest => do
    let flag ← part? (Text.trim part)
    return flag.union (← ofParts? rest)

/-- The set that a text lists; a text of blanks lists none. -/
def ofText? (s : String) : Option NodeFlags :=
  if (Text.trim s.toList).isEmpty then some {}
  else ofParts? (s.toList.splitOn '|')

end NodeFlags

end ScriptToolchain
