/-
# Exact values of doubles

A finite double is a whole number of powers of two. Everything that has to be
exact (choosing decimal digits, rounding to a fixed number of places, taking a
remainder) is done on that pair in natural-number arithmetic.
-/

namespace StyleSense.Decimal

/-- A double taken apart. A finite one has the magnitude
`mantissa * 2 ^ exponent`. -/
inductive Double
  | nan
  | infinite (negative : Bool)
  | finite (negative : Bool) (mantissa : Nat) (exponent : Int)
  deriving DecidableEq, Repr

namespace Double

/-- The fields of the 64-bit form: one sign bit, eleven bits of exponent and
fifty-two bits of fraction. -/
def ofBits (bits : Nat) : Double :=
  let negative := decide (Nat.pow 2 63 ≤ bits)
  let field : Nat := bits / Nat.pow 2 52 % Nat.pow 2 11
  let fraction : Nat := bits % Nat.pow 2 52
  if field = 2047 then
    if fraction = 0 then .infinite negative else .nan
  else if field = 0 then .finite negative fraction (-1074)
  else .finite negative (Nat.pow 2 52 + fraction) ((field : Int) - 1075)

/-- The exact value of a double. -/
def ofFloat (x : Float) : Double :=
  ofBits x.toBits.toNat

end Double

/-- The magnitude `mantissa * 2 ^ exponent` as a fraction of natural
numbers. -/
def fractionOf (mantissa : Nat) (exponent : Int) : Nat × Nat :=
  if 0 ≤ exponent then (mantissa * Nat.pow 2 exponent.toNat, 1)
  else (mantissa, Nat.pow 2 (-exponent).toNat)

/-- The quotient rounded to the nearest whole number, a half going to the even
neighbour. -/
def roundHalfEven (num den : Nat) : Nat :=
  let quotient := num / den
  let twice := 2 * (num % den)
  if twice < den then quotient
  else if den < twice then quotient + 1
  else if quotient % 2 = 0 then quotient else quotient + 1

/-- The quotient rounded to the nearest whole number, a half going up. -/
def roundHalfUp (num den : Nat) : Nat :=
  (2 * num + den) / (2 * den)

/-- The whole part of a finite double, signed; the fraction is dropped. Not
finite doubles have none. -/
def wholePart? (x : Float) : Option Int :=
  match Double.ofFloat x with
  | .finite negative mantissa exponent =>
      let (num, den) := fractionOf mantissa exponent
      let whole : Int := (num / den : Nat)
      some (if negative then -whole else whole)
  | _ => none

/-- The double `± mantissa * 2 ^ exponent`, for a mantissa that fits a
double. -/
def ofParts (negative : Bool) (mantissa : Nat) (exponent : Int) : Float :=
  let magnitude := (Float.ofNat mantissa).scaleB exponent
  if negative then -magnitude else magnitude

/-- The remainder of a division that truncates, exact and with the sign of the
dividend. Both operands are brought to the smaller of the two exponents, where
they are whole numbers. -/
def remainder (x y : Float) : Float :=
  match Double.ofFloat x, Double.ofFloat y with
  | .finite negative m e, .finite _ n f =>
      if n = 0 then 0.0 / 0.0
      else
        let grid := min e f
        let a := m * Nat.pow 2 (e - grid).toNat
        let b := n * Nat.pow 2 (f - grid).toNat
        if a < b then x else ofParts negative (a % b) grid
  | .finite .., .infinite _ => x
  | _, _ => 0.0 / 0.0

end StyleSense.Decimal
