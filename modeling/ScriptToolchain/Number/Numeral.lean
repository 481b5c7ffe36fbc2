/-!
# Decimal numerals

A numeral is a decimal number as it is written: sign, digits before and after
the point, exponent. `Layout` says which numbers are written without an
exponent.
-/

namespace ScriptToolchain

/-- A decimal digit. -/
abbrev Digit := Fin 10

namespace Digit

/-- The digit `0`. -/
def zero : Digit := ⟨0, by decide⟩

/-- The character of a digit. -/
def toChar (d : Digit) : Char :=
  Char.ofNat (48 + d.val)

/-- The digit that a character writes. -/
def ofChar? (c : Char) : Option Digit :=
  if '0' ≤ c ∧ c ≤ '9' then some (Fin.ofNat 10 (c.toNat - 48)) else none

/-- The digits of a natural in base 10, the highest first. -/
def ofNat (n : Nat) : List Digit :=
  (Nat.toDigits 10 n).filterMap ofChar?

/-- The natural that digits write in base 10. -/
def toNat (ds : List Digit) : Nat :=
  ds.foldl (fun acc d => acc * 10 + d.val) 0

end Digit

/-- A decimal number as it is written. -/
structure Numeral where
  negative : Bool := false
  /-- The digits before the point. -/
  whole : List Digit
  /-- The digits after the point; no point is written when there are none. -/
  fraction : List Digit := []
  /-- The power of ten, when one is written. -/
  exponent : Option Int := none
deriving Repr, DecidableEq

namespace Numeral

/-- The numeral of an integer. -/
def ofInt (i : Int) : Numeral :=
  { negative := i < 0, whole := Digit.ofNat i.natAbs }

/-- Neither a point nor an exponent is written. -/
def isIntegral (n : Numeral) : Bool :=
  n.fraction.isEmpty && n.exponent.isNone

/-- The numeral as text. -/
def text (n : Numeral) : String :=
  let sign := if n.negative then "-" else ""
  let digits := fun ds : List Digit => String.ofList (ds.map Digit.toChar)
  let fraction := if n.fraction.isEmpty then "" else "." ++ digits n.fraction
  let exponent := match n.exponent with
    | some e => "e" ++ toString e
    | none => ""
  sign ++ digits n.whole ++ fraction ++ exponent

/-- Where numbers stop being written with all their places and get an exponent. -/
structure Layout where
  /-- The least position of the first digit, counted from the point, that is written in place. -/
  lowest : Int
  /-- The greatest such position. -/
  highest : Int
deriving Repr, DecidableEq

/--
The numeral of `0.d₁d₂… * 10 ^ point`. Written in place it has a digit on each side of the
point; with an exponent it has one digit before the point and a point only if more follow.
-/
def Layout.write (l : Layout) (negative : Bool) (digits : List Digit) (point : Int) : Numeral :=
  if point < l.lowest ∨ l.highest < point then
    { negative, whole := digits.take 1, fraction := digits.drop 1, exponent := some (point - 1) }
  else if point ≤ 0 then
    { negative, whole := [.zero], fraction := List.replicate point.natAbs .zero ++ digits }
  else
    let places := point.toNat
    let fraction := digits.drop places
    { negative
      whole := digits.take places ++ List.replicate (places - digits.length) .zero
      fraction := if fraction.isEmpty then [.zero] else fraction }

end Numeral

end ScriptToolchain
