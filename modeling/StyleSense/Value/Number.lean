/-
# Conversions to numbers

A primitive value other than a big integer converts to a number. Text converts
after trimming: nothing is zero, a radix mark introduces whole digits that fit
64 bits, and otherwise the text is a decimal or an infinity; any other text is
no number. Bit operations see a number's whole part modulo `2 ^ 32`.
-/

import StyleSense.Value.Basic
import StyleSense.Text.Blank
import StyleSense.Decimal.Reader

namespace StyleSense

open StyleSense.Text StyleSense.Decimal

/-- The value that is no number. -/
def notANumber : Float := 0.0 / 0.0

/-- The infinities. -/
def infinity (negative : Bool) : Float :=
  if negative then -1.0 / 0.0 else 1.0 / 0.0

/-- The radix that a text's first two characters announce. -/
def radixMark? : List Char → Option Nat
  | '0' :: 'x' :: _ | '0' :: 'X' :: _ => some 16
  | '0' :: 'o' :: _ | '0' :: 'O' :: _ => some 8
  | '0' :: 'b' :: _ | '0' :: 'B' :: _ => some 2
  | _ => none

/-- Characters of decimals. -/
def isDecimalChar (c : Char) : Bool :=
  isDigit c || c = '+' || c = '-' || c = '.' || c = 'e' || c = 'E'

/-- The number that a text is. -/
def textToNumber (text : String) : Float :=
  let cs := trim text.toList
  if cs.isEmpty then 0
  else
    match radixMark? cs with
    | some radix =>
        match readBounded? radix (Nat.pow 2 64) (cs.drop 2) with
        | some n => (UInt64.ofNat n).toFloat
        | none => notANumber
    | none =>
        match String.ofList cs with
        | "Infinity" | "+Infinity" => infinity false
        | "-Infinity" => infinity true
        | _ => if cs.all isDecimalChar then (readDecimal? cs).getD notANumber else notANumber

/-- The number that a primitive value converts to. -/
def Value.toNumber? : Value → Option Float
  | .undefined => some notANumber
  | .null => some 0
  | .bool b => some (if b then 1 else 0)
  | .number x => some x
  | .string s => some (textToNumber s)
  | .bigint _ | .regex .. | .array _ | .object _ => none

/-- A number's whole part modulo `2 ^ 32`; zero for a number without one. -/
def toUnsigned32 (x : Float) : UInt32 :=
  match wholePart? x with
  | some whole => UInt32.ofNat (whole % 4294967296).toNat
  | none => 0

/-- The same thirty-two bits, read with a sign. -/
def toSigned32 (x : Float) : Int32 :=
  (toUnsigned32 x).toInt32

/-- A signed 32-bit integer as a number. -/
def ofSigned32 (n : Int32) : Float :=
  Float.ofInt n.toInt

/-- An unsigned 32-bit integer as a number. -/
def ofUnsigned32 (n : UInt32) : Float :=
  Float.ofNat n.toNat

end StyleSense
