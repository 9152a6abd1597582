/-
# Reading decimals

A decimal is an optional sign, digits with at most one point among or beside
them, and an optional exponent. It is read as the nearest double. Words for
infinities and for the value that is no number belong to some readers and not
to others, so they are kept apart from the digits.
-/

import StyleSense.Text.Measure
import StyleSense.Decimal.Double

namespace StyleSense.Decimal

open StyleSense.Text

/-- The magnitude `significand * 10 ^ exponent` before rounding. -/
structure Literal where
  significand : Nat
  exponent : Int
  deriving DecidableEq, Repr

/-- The nearest double. Exponents far outside the range are decided without
computing a power. -/
def Literal.toFloat (lit : Literal) : Float :=
  if lit.significand = 0 then 0
  else
    let length : Int := (digitCount lit.significand : Int)
    if 400 < lit.exponent + length then 1.0 / 0.0
    else if lit.exponent + length < -400 then 0
    else if 0 ≤ lit.exponent then Float.ofScientific lit.significand false lit.exponent.toNat
    else Float.ofScientific lit.significand true (-lit.exponent).toNat
where
  /-- The number of decimal digits, give or take one. -/
  digitCount (n : Nat) : Nat := Nat.log2 n * 30103 / 100000 + 1

/-- The digits at the front and what follows them. -/
def spanDigits (cs : List Char) : List Char × List Char :=
  (cs.takeWhile isDigit, cs.dropWhile isDigit)

/-- The number written by decimal digits; nothing writes zero. -/
def digitsToNat (cs : List Char) : Nat :=
  cs.foldl (fun n c => n * 10 + (c.toNat - 48)) 0

/-- An exponent with its mark: `e`, an optional sign and at least one digit. -/
def readExponent? : List Char → Option Int
  | [] => some 0
  | mark :: cs =>
      if mark = 'e' || mark = 'E' then
        match cs with
        | '-' :: ds => (readDigits? 10 ds).map fun n => -(n : Int)
        | '+' :: ds => (readDigits? 10 ds).map (↑·)
        | ds => (readDigits? 10 ds).map (↑·)
      else none

/-- A decimal without a sign: digits on at least one side of the point. -/
def readUnsigned? (cs : List Char) : Option Literal :=
  let (whole, rest) := spanDigits cs
  let (fraction, tail) := match rest with
    | '.' :: after => spanDigits after
    | _ => ([], rest)
  if whole.isEmpty && fraction.isEmpty then none
  else (readExponent? tail).map fun exponent =>
    ⟨digitsToNat (whole ++ fraction), exponent - fraction.length⟩

/-- A sign in front of what `read` reads. -/
def readSigned? (read : List Char → Option Float) : List Char → Option Float
  | '-' :: cs => (read cs).map (- ·)
  | '+' :: cs => read cs
  | cs => read cs

/-- A signed decimal as the nearest double. -/
def readDecimal? (cs : List Char) : Option Float :=
  readSigned? (fun ds => (readUnsigned? ds).map Literal.toFloat) cs

/-- A signed decimal, or one of the words `inf`, `infinity` and `nan` in any
case, also signed. -/
def readNumberOrWord? (cs : List Char) : Option Float :=
  readSigned? (fun ds =>
    match (readUnsigned? ds).map Literal.toFloat with
    | some x => some x
    | none =>
        let word := String.ofList (lowerAscii ds)
        if word = "inf" || word = "infinity" then some (1.0 / 0.0)
        else if word = "nan" then some (0.0 / 0.0)
        else none) cs

end StyleSense.Decimal
