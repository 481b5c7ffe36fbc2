import ScriptToolchain.Json.Value
import ScriptToolchain.Number.Binary
import ScriptToolchain.Number.Shortest

/-!
# Numbers in JSON

A numeral with neither point nor exponent is an integer if 64 bits hold it,
minus zero apart. Every other numeral is a 64-bit float. The float is found
with two roundings: as many leading digits as make a 64-bit natural are
rounded, then one multiplication or division by a power of ten is.
-/

namespace ScriptToolchain

namespace Json

/-- How a number in JSON is taken. -/
inductive NumberValue where
  | natural (n : Nat)
  /-- The integer `-n`. -/
  | negative (n : Nat)
  /-- A 64-bit float as its pattern of bits. -/
  | float (bits : Nat)
deriving Repr, DecidableEq

/-- The natural that leading digits make as long as 64 bits hold it, and the other digits. -/
def leadingWord (acc : Nat) : List Digit → Nat × List Digit
  | [] => (acc, [])
  | d :: rest =>
    if acc * 10 + d.val < UInt64.size then leadingWord (acc * 10 + d.val) rest else (acc, d :: rest)

/-- A float that is a multiple of a power of ten: the pattern, unless it is infinite. -/
def finite? (x : Rat) : Option Rat :=
  BinaryFormat.binary64.nearest? x

/-- The power of ten as a 64-bit float. -/
def powerOfTen (n : Nat) : Rat :=
  (finite? (mkRat (tenTo n) 1)).getD 0

/-- The greatest power of ten that is a 64-bit float. -/
def maxPower : Nat := 308

/--
`f * 10 ^ exponent`, none if it is infinite. A power too small for a float is divided by in
steps; two of them bring any 64-bit natural to zero.
-/
def scale? (f : Rat) (exponent : Int) : Nat → Option Rat
  | 0 => some 0
  | steps + 1 =>
    if exponent.natAbs ≤ maxPower then
      if 0 ≤ exponent then finite? (f * powerOfTen exponent.natAbs)
      else finite? (f / powerOfTen exponent.natAbs)
    else if f = 0 then some 0
    else if 0 ≤ exponent then none
    else
      match finite? (f / powerOfTen maxPower) with
      | some smaller => scale? smaller (exponent + maxPower) steps
      | none => none

/-- The pattern of the float that a numeral is read as, none if it is infinite. -/
def readFloat? (n : Numeral) : Option Nat :=
  let (whole, dropped) := leadingWord 0 n.whole
  let (significand, rest) := leadingWord whole n.fraction
  let exponent : Int :=
    dropped.length - (n.fraction.length - rest.length : Nat) + n.exponent.getD 0
  match (finite? (mkRat significand 1)).bind (scale? · exponent 3) with
  | some x => some (BinaryFormat.binary64.encode n.negative x.num.natAbs x.den)
  | none => none

/-- How a numeral is taken. -/
def readNumber? (n : Numeral) : Option NumberValue :=
  let value := Digit.toNat n.whole
  if n.isIntegral && !n.negative && value < UInt64.size then some (.natural value)
  else if n.isIntegral && n.negative && 1 ≤ value && 2 * value ≤ UInt64.size then
    some (.negative value)
  else (readFloat? n).map .float

/-- The 32-bit float nearest to a number, as its pattern; infinity when it is too large. -/
def NumberValue.toFloat32 : NumberValue → UInt32
  | .natural n => (BinaryFormat.binary32.encode false n 1).toUInt32
  | .negative n => (BinaryFormat.binary32.encode true n 1).toUInt32
  | .float bits => (BinaryFormat.binary64.convert .binary32 bits).toUInt32

/-- The integer that a number is taken for. -/
def NumberValue.toInt? : NumberValue → Option Int
  | .natural n => some n
  | .negative n => some (-n)
  | .float _ => none

/-- An integer between the bounds. -/
def intBetween? (least greatest : Int) : Json → Option Int
  | .number n =>
    match (readNumber? n).bind NumberValue.toInt? with
    | some i => if least ≤ i ∧ i ≤ greatest then some i else none
    | none => none
  | _ => none

/-- A 32-bit float as its pattern. -/
def float32? : Json → Option UInt32
  | .number n => (readNumber? n).map NumberValue.toFloat32
  | _ => none

/-- Floats from `1e-6` up to `1e13` are written with all their places. -/
def floatLayout : Numeral.Layout := ⟨-5, 13⟩

/-- A 32-bit float; null stands for a pattern that is no finite number. -/
def ofFloat32 (bits : UInt32) : Json :=
  match BinaryFormat.binary32.decode bits.toNat with
  | .finite negative significand exponent =>
    .number (Shortest.numeral .binary32 floatLayout negative significand exponent)
  | _ => .null

end Json

end ScriptToolchain
