import ScriptToolchain.Number.Numeral
import ScriptToolchain.Number.Power

/-!
# Numbers with a fixed number of places

A rational number is written with a given number of digits after the point. It
is rounded to the nearest such number, an exact half to the one whose last
digit is even.
-/

namespace ScriptToolchain

/-- The natural nearest to `num / den`, of two equally near ones the even one. -/
def roundedQuotient (num den : Nat) : Nat :=
  let q := num / den
  let twice := 2 * (num % den)
  if den < twice ∨ (den = twice ∧ q % 2 = 1) then q + 1 else q

namespace Numeral

/-- Digits with zeros in front up to `width`. -/
def zeroFilled (width : Nat) (ds : List Digit) : List Digit :=
  List.replicate (width - ds.length) .zero ++ ds

/-- `x` with `places` digits after the point; the sign stays when it is rounded to zero. -/
def fixed (places : Nat) (x : Rat) : Numeral :=
  let units := roundedQuotient (x.num.natAbs * tenTo places) x.den
  let ds := zeroFilled (places + 1) (Digit.ofNat units)
  let split := ds.length - places
  { negative := x.num < 0, whole := ds.take split, fraction := ds.drop split }

end Numeral

end ScriptToolchain
