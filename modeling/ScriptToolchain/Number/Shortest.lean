import ScriptToolchain.Number.Binary
import ScriptToolchain.Number.Numeral

/-!
# Fewest digits that read back

The decimal of a finite binary number has as few digits as tell it from its
neighbours in the format. Around the number lies the interval of reals that
round to it, ends included when the significand is even. On the grid of
decimals with one digit, then two, and so on, the two neighbours of the number
are tried; the first grid with one of them inside the interval gives the
digits. Of two the nearer wins, of two equally near ones the upper.
-/

namespace ScriptToolchain.Shortest

/-- The interval of reals that round to a number, in quarters of its unit in the last place. -/
structure Interval where
  lower : Nat
  value : Nat
  upper : Nat
  /-- The ends belong to the interval. -/
  closed : Bool
deriving Repr, DecidableEq

/-- The interval of `significand * 2 ^ exponent`; below a power of two it is narrower. -/
def interval (f : BinaryFormat) (significand : Nat) (exponent : Int) : Interval :=
  let narrow := significand = twoTo f.fractionBits ∧ f.leastExponent < exponent
  { lower := 4 * significand - (if narrow then 1 else 2)
    value := 4 * significand
    upper := 4 * significand + 2
    closed := significand % 2 = 0 }

/-- The least number of places `k ≤ fuel` with `1 ≤ num / den * 10 ^ k`. -/
def leadingZeros (num den : Nat) : Nat → Nat
  | 0 => 0
  | fuel + 1 => if den ≤ num then 0 else leadingZeros (num * 10) den fuel + 1

/-- The `t` with `10 ^ (t - 1) ≤ num / den < 10 ^ t`. -/
def pointOf (num den : Nat) : Int :=
  if den ≤ num then (Nat.toDigits 10 (num / den)).length
  else 1 - (leadingZeros num den (den.log2 + 1) : Nat)

/-- The neighbour on the grid `10 ^ k` that reads back, as a multiple of the grid step. -/
def onGrid? (i : Interval) (num den : Nat) (k : Int) : Option Nat :=
  let p := num * (if k < 0 then tenTo k.natAbs else 1)
  let q := den * (if k < 0 then 1 else tenTo k.natAbs)
  let inside (d : Nat) : Bool :=
    if i.closed then i.lower * p ≤ d * q && d * q ≤ i.upper * p
    else i.lower * p < d * q && d * q < i.upper * p
  let below := i.value * p / q
  let above := below + 1
  match inside below, inside above with
  | true, true =>
    if i.value * p - below * q < above * q - i.value * p then some below else some above
  | true, false => some below
  | false, true => some above
  | false, false => none

/-- The digits of a positive finite number and the position of the point before them. -/
def digits (f : BinaryFormat) (significand : Nat) (exponent : Int) : List Digit × Int :=
  let (num, den) := scaled 1 (exponent - 2)
  let point := pointOf (4 * significand * num) den
  let found := (List.range 17).findSome? fun n : Nat =>
    let k : Int := point - (n + 1)
    (onGrid? (interval f significand exponent) num den k).map fun d => (d, k)
  match found with
  | some (d, k) =>
    let ds := Digit.ofNat d
    ((ds.reverse.dropWhile (· = Digit.zero)).reverse, ds.length + k)
  | none => ([.zero], 1)

/-- The numeral of a finite number; zero has one digit on each side of the point. -/
def numeral (f : BinaryFormat) (l : Numeral.Layout)
    (negative : Bool) (significand : Nat) (exponent : Int) : Numeral :=
  if significand = 0 then { negative, whole := [.zero], fraction := [.zero] }
  else
    let (ds, point) := digits f significand exponent
    l.write negative ds point

end ScriptToolchain.Shortest
