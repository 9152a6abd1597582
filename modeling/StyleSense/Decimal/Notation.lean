/-
# Number text

A number is written with its shortest digits. From a millionth up to below
`10 ^ 21` the notation is positional; outside that range it is a mantissa with
an exponent, which carries a sign in both directions. Both zeros are written
alike.
-/

import StyleSense.Decimal.Shortest

namespace StyleSense.Decimal

/-- How a positive decimal is laid out. -/
structure Layout where
  /-- Positional when the decimal point falls in this range. -/
  firstPoint : Int
  lastPoint : Int
  /-- What stands before a positive exponent. -/
  plus : String
  /-- What follows a positional number that is whole. -/
  wholeEnd : String

/-- Script numbers: `0.000001` and `123456789012345680000` are positional, and
a whole number shows no point. -/
def scriptLayout : Layout :=
  ⟨-5, 21, "+", ""⟩

/-- Numbers in written data: `0.00001` and `1234567890123456.0` are positional,
and a whole number shows that it is no integer. -/
def dataLayout : Layout :=
  ⟨-4, 16, "", ".0"⟩

/-- The digit characters of a whole number. -/
def digitChars (n : Nat) : List Char :=
  Nat.toDigits 10 n

/-- Digits without the zeros at their end. -/
def trimZeros (cs : List Char) : List Char :=
  (cs.reverse.dropWhile (· = '0')).reverse

/-- Digits with a point after the first `point` of them; zeros fill up on
either side. -/
def positional (layout : Layout) (digits : List Char) (point : Int) : String :=
  if point ≤ 0 then
    String.ofList ('0' :: '.' :: (List.replicate (-point).toNat '0' ++ digits))
  else
    let whole := point.toNat
    if digits.length ≤ whole then
      String.ofList (digits ++ List.replicate (whole - digits.length) '0') ++ layout.wholeEnd
    else String.ofList (digits.take whole ++ '.' :: digits.drop whole)

/-- One digit before the point and the power of ten behind it. -/
def scientific (layout : Layout) (digits : List Char) (point : Int) : String :=
  let mantissa := match digits with
    | [] => "0"
    | [d] => String.ofList [d]
    | d :: rest => String.ofList (d :: '.' :: rest)
  let exponent := point - 1
  mantissa ++ "e" ++ (if exponent < 0 then "-" else layout.plus) ++ toString exponent.natAbs

/-- The text of a positive decimal. -/
def Layout.write (layout : Layout) (d : Digits) : String :=
  let digits := trimZeros (digitChars d.digits)
  if layout.firstPoint ≤ d.point && d.point ≤ layout.lastPoint then
    positional layout digits d.point
  else scientific layout digits d.point

/-- The text of a number. -/
def formatNumber (x : Float) : String :=
  match Double.ofFloat x with
  | .nan => "NaN"
  | .infinite negative => if negative then "-Infinity" else "Infinity"
  | .finite negative mantissa exponent =>
      if mantissa = 0 then "0"
      else
        let text := scriptLayout.write (shortestDigits mantissa exponent)
        if negative then "-" ++ text else text

/-- The text of a number with exactly `places` digits after the point, rounded
correctly from its exact value; a value that rounds to zero has no sign. -/
def formatFixed (places : Nat) (x : Float) : String :=
  match Double.ofFloat x with
  | .nan => "NaN"
  | .infinite negative => if negative then "-inf" else "inf"
  | .finite negative mantissa exponent =>
      let (num, den) := fractionOf mantissa exponent
      let rounded := roundHalfEven (num * Nat.pow 10 places) den
      let digits := digitChars rounded
      let padded := List.replicate (places + 1 - digits.length) '0' ++ digits
      let whole := padded.take (padded.length - places)
      let rest := padded.drop (padded.length - places)
      let text := String.ofList (if places = 0 then whole else whole ++ '.' :: rest)
      if negative && rounded ≠ 0 then "-" ++ text else text

end StyleSense.Decimal
