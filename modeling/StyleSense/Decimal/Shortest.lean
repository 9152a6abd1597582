/-
# Shortest digits

The shortest decimal that reads back as a given double. A decimal reads back
when it lies in the interval of reals that round to the double; the ends of
the interval belong to it exactly when the mantissa is even. Grids of one, two,
up to seventeen digits are tried in turn, and on each grid only the two
neighbours of the value itself: if any point of a grid lies in the interval,
one of those two does.
-/

import StyleSense.Decimal.Double

namespace StyleSense.Decimal

/-- The number `0.d₁d₂… * 10 ^ point`, its digits written as one whole
number. -/
structure Digits where
  digits : Nat
  point : Int
  deriving DecidableEq, Repr

/-- A positive double with the interval that rounds to it, all over one
denominator. -/
structure Interval where
  low : Nat
  value : Nat
  high : Nat
  den : Nat
  closed : Bool

/-- The interval reaches half way to the neighbours. Below a power of two the
next double is twice as near, except at the smallest exponent. -/
def intervalOf (mantissa : Nat) (exponent : Int) : Interval :=
  let below := if mantissa = Nat.pow 2 52 && exponent ≠ -1074 then 1 else 2
  let scaled := exponent - 2
  let factor := if 0 ≤ scaled then Nat.pow 2 scaled.toNat else 1
  let den := if 0 ≤ scaled then 1 else Nat.pow 2 (-scaled).toNat
  { low := (4 * mantissa - below) * factor
    value := 4 * mantissa * factor
    high := (4 * mantissa + 2) * factor
    den
    closed := mantissa % 2 = 0 }

/-- The least exponent `p` with `num / den < 10 ^ p`. The binary lengths of
both numbers give it up to a few steps. -/
def pointOf (num den : Nat) : Int :=
  let bits : Int := (Nat.log2 num : Int) - (Nat.log2 den : Int)
  let guess : Int := (bits - 1) * 30103 / 100000 - 1
  let above (p : Int) : Bool :=
    if 0 ≤ p then num < den * Nat.pow 10 p.toNat else num * Nat.pow 10 (-p).toNat < den
  ([0, 1, 2, 3].map (guess + ·)).find? above |>.getD (guess + 4)

/-- The better of the two grid points around the value that lie in the
interval; a tie goes to the larger. `unit` is the grid's step, a power of
ten. -/
def nearestOnGrid? (r : Interval) (step : Int) : Option Nat :=
  let scale := if 0 ≤ step then Nat.pow 10 step.toNat else 1
  let widen := if 0 ≤ step then 1 else Nat.pow 10 (-step).toNat
  let value := r.value * widen
  let unit := r.den * scale
  let floor := value / unit
  let inside (d : Nat) : Bool :=
    let point := d * unit
    if r.closed then r.low * widen ≤ point && point ≤ r.high * widen
    else r.low * widen < point && point < r.high * widen
  let below := inside floor
  let above := inside (floor + 1)
  if below && above then
    if 2 * (value % unit) < unit then some floor else some (floor + 1)
  else if below then some floor
  else if above then some (floor + 1)
  else none

/-- The first grid that has a point in the interval gives the digits.
Seventeen digits always do. -/
def shortestDigits (mantissa : Nat) (exponent : Int) : Digits :=
  let r := intervalOf mantissa exponent
  let point := pointOf r.value r.den
  let hit := (List.range' 1 17).findSome? fun (count : Nat) =>
    (nearestOnGrid? r (point - count)).map fun d =>
      if d = Nat.pow 10 count then (⟨1, point + 1⟩ : Digits) else ⟨d, point⟩
  hit.getD ⟨r.value / r.den, point⟩

end StyleSense.Decimal
