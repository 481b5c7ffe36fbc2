import ScriptToolchain.Number.Power

/-!
# Binary floating-point formats

A pattern of bits in an interchange format stands for a signed zero, a finite
number `± significand · 2 ^ exponent`, an infinity or no number. `encode`
rounds a quotient of naturals to the nearest pattern, an exact half to the
even one, and is the only place where rounding happens.
-/

namespace ScriptToolchain

/-- A binary interchange format: how many bits its fraction and exponent fields have. -/
structure BinaryFormat where
  fractionBits : Nat
  exponentBits : Nat
deriving Repr, DecidableEq

/-- What a pattern of bits stands for. -/
inductive BinaryValue where
  | notANumber
  | infinite (negative : Bool)
  /-- `significand * 2 ^ exponent`, with its sign. -/
  | finite (negative : Bool) (significand : Nat) (exponent : Int)
deriving Repr, DecidableEq

/-- The natural and its power of two as a quotient of naturals. -/
def scaled (significand : Nat) (exponent : Int) : Nat × Nat :=
  if exponent < 0 then (significand, twoTo exponent.natAbs)
  else (significand * twoTo exponent.natAbs, 1)

namespace BinaryFormat

/-- The 32-bit format. -/
def binary32 : BinaryFormat := ⟨23, 8⟩

/-- The 64-bit format. -/
def binary64 : BinaryFormat := ⟨52, 11⟩

/-- The exponent of the least positive number. -/
def leastExponent (f : BinaryFormat) : Int :=
  2 - (twoTo (f.exponentBits - 1) : Int) - f.fractionBits

/-- The pattern of positive infinity. -/
def infinityBits (f : BinaryFormat) : Nat :=
  (twoTo f.exponentBits - 1) * twoTo f.fractionBits

/-- The value of the sign bit. -/
def signBit (f : BinaryFormat) : Nat :=
  twoTo (f.exponentBits + f.fractionBits)

/-- What a pattern stands for. -/
def decode (f : BinaryFormat) (bits : Nat) : BinaryValue :=
  let negative := bits / f.signBit % 2 == 1
  let field := bits / twoTo f.fractionBits % twoTo f.exponentBits
  let fraction := bits % twoTo f.fractionBits
  if field = twoTo f.exponentBits - 1 then
    if fraction = 0 then .infinite negative else .notANumber
  else if field = 0 then .finite negative fraction f.leastExponent
  else .finite negative (twoTo f.fractionBits + fraction) (f.leastExponent + (field - 1))

/-- `num / (den * 2 ^ exponent)` rounded down, and what is left over, as a quotient. -/
def quotientAt (num den : Nat) (exponent : Int) : Nat × Nat × Nat :=
  let (n, d) := if exponent < 0 then (num * twoTo exponent.natAbs, den)
    else (num, den * twoTo exponent.natAbs)
  (n / d, n % d, d)

/--
The pattern nearest to `num / den`, of two equally near ones the even one; infinity when the
quotient lies beyond the largest finite number.
-/
def encode (f : BinaryFormat) (negative : Bool) (num den : Nat) : Nat :=
  let sign := if negative then f.signBit else 0
  if num = 0 ∨ den = 0 then sign
  else
    let guess : Int := (num.log2 : Int) - den.log2 - f.fractionBits
    let exponent :=
      if (quotientAt num den guess).1 < twoTo f.fractionBits then guess - 1 else guess
    let exponent := max exponent f.leastExponent
    let (q, r, d) := quotientAt num den exponent
    let q := if d < 2 * r ∨ (d = 2 * r ∧ q % 2 = 1) then q + 1 else q
    let bits := (exponent - f.leastExponent).toNat * twoTo f.fractionBits + q
    sign + min bits f.infinityBits

/-- The pattern of `g` nearest to what a pattern of `f` stands for. -/
def convert (f g : BinaryFormat) (bits : Nat) : Nat :=
  match f.decode bits with
  | .notANumber => g.infinityBits + twoTo (g.fractionBits - 1)
  | .infinite negative => (if negative then g.signBit else 0) + g.infinityBits
  | .finite negative significand exponent =>
    let (num, den) := scaled significand exponent
    g.encode negative num den

/-- The number that a pattern stands for, when it is finite. -/
def toRat? (f : BinaryFormat) (bits : Nat) : Option Rat :=
  match f.decode bits with
  | .finite negative significand exponent =>
    let (num, den) := scaled significand exponent
    some (mkRat (if negative then -num else num) den)
  | _ => none

/-- The finite number of the format nearest to `x`, if `x` is not beyond all of them. -/
def nearest? (f : BinaryFormat) (x : Rat) : Option Rat :=
  f.toRat? (f.encode (x < 0) x.num.natAbs x.den)

end BinaryFormat

end ScriptToolchain
