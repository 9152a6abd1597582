/-
# JSON number text

A number is an optional minus sign, digits without a leading zero, an optional
fraction and an optional exponent. Whole numbers that fit 64 bits are integers.
All others are doubles, read by one scaling: the digits are gathered in a
64-bit significand, digits that no longer fit are dropped, and the significand
is scaled once by a power of ten. That is one or two units in the last place
away from the nearest double at times, and never more exact than this rule.
-/

import StyleSense.Json.Basic
import StyleSense.Decimal.Reader

namespace StyleSense.JsonNumber

open StyleSense.Text StyleSense.Decimal

/-- A number's text, taken apart. -/
structure Parts where
  negative : Bool
  whole : List Char
  /-- The digits after the point, if there is a point. -/
  fraction : Option (List Char)
  /-- Whether the exponent is negative, and its digits. -/
  exponent : Option (Bool × List Char)

/-- The exponent at the front of a text, which must end there. -/
def exponentOf? : List Char → Option (Option (Bool × List Char))
  | [] => some none
  | mark :: cs =>
      if mark = 'e' || mark = 'E' then
        let (negative, digits) := match cs with
          | '-' :: ds => (true, ds)
          | '+' :: ds => (false, ds)
          | ds => (false, ds)
        if digits.isEmpty || !digits.all isDigit then none else some (some (negative, digits))
      else none

/-- The grammar of numbers. -/
def partsOf? (cs : List Char) : Option Parts :=
  let (negative, body) := match cs with
    | '-' :: rest => (true, rest)
    | _ => (false, cs)
  let (whole, rest) := spanDigits body
  if whole.isEmpty || (1 < whole.length && whole.head? = some '0') then none
  else
    match rest with
    | '.' :: after =>
        let (fraction, tail) := spanDigits after
        if fraction.isEmpty then none
        else (exponentOf? tail).map (⟨negative, whole, some fraction, ·⟩)
    | _ => (exponentOf? rest).map (⟨negative, whole, none, ·⟩)

/-- The significand of a number while it is gathered. -/
structure Gathered where
  significand : Nat
  exponent : Int

/-- Appends a digit if the result fits 64 bits. -/
def push? (significand : Nat) (digit : Char) : Option Nat :=
  let next := significand * 10 + (digit.toNat - 48)
  if next < Nat.pow 2 64 then some next else none

/-- Gathers the whole digits. The first that does not fit, and all after it,
only raise the exponent. -/
def gatherWhole : Nat → List Char → Gathered
  | significand, [] => ⟨significand, 0⟩
  | significand, d :: ds =>
      match push? significand d with
      | some next => gatherWhole next ds
      | none => ⟨significand, (d :: ds).length⟩

/-- Gathers the digits after the point. The first that does not fit, and all
after it, are dropped. -/
def gatherFraction : Gathered → List Char → Gathered
  | g, [] => g
  | g, d :: ds =>
      match push? g.significand d with
      | some next => gatherFraction ⟨next, g.exponent - 1⟩ ds
      | none => g

/-- A power of ten within the doubles. -/
def powerOfTen (n : Nat) : Float :=
  Float.ofScientific 1 false n

/-- Scales down by `10 ^ n`, at most `10 ^ 308` at a time; zero stays zero. -/
def scaleDown (x : Float) (n : Nat) : Float :=
  if n ≤ 308 then x / powerOfTen n
  else if x == 0 then x
  else scaleDown (x / powerOfTen 308) (n - 308)
termination_by n
decreasing_by omega

/-- The significand scaled; none beyond the doubles. -/
def scale? (significand : Nat) (exponent : Int) : Option Float :=
  let x := (UInt64.ofNat significand).toFloat
  if exponent < 0 then some (scaleDown x (-exponent).toNat)
  else if exponent ≤ 308 then
    let scaled := x * powerOfTen exponent.toNat
    if scaled.isInf then none else some scaled
  else if significand = 0 then some x
  else none

/-- Exponents are counted in 32 bits. One that does not fit stands for zero
when it is negative or the significand is zero, and for nothing otherwise. -/
def maxExponent : Nat := 2147483647

/-- The magnitude of a number that is no integer. -/
def magnitude? (p : Parts) : Option Float :=
  let whole := gatherWhole 0 p.whole
  let g := match p.fraction with
    | some fraction => gatherFraction whole fraction
    | none => whole
  match p.exponent with
  | none => scale? g.significand g.exponent
  | some (negative, digits) =>
      let n := digitsToNat digits
      if maxExponent < n then
        if !negative && g.significand ≠ 0 then none else some 0
      else scale? g.significand (if negative then g.exponent - n else g.exponent + n)

/-- The value of a number's text, if it has one. -/
def ofParts? (p : Parts) : Option JsonNumber :=
  let real := (magnitude? p).map fun x => real (if p.negative then -x else x)
  match p.fraction, p.exponent with
  | none, none =>
      let n := digitsToNat p.whole
      if p.negative then
        if n ≠ 0 && n ≤ Nat.pow 2 63 then some (integer (-n)) else real
      else if n < Nat.pow 2 64 then some (integer n)
      else real
  | _, _ => real

end StyleSense.JsonNumber
