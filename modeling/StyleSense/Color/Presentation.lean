/-
# Writing colors

Three notations write a color: hexadecimal digits, channels, and hue. An opaque
color shows no opacity in the latter two. Where a swatch is edited, the digits
also leave out that of an opaque color, unless the swatch showed one that is
partly transparent.
-/

import StyleSense.Color.Basic
import StyleSense.Decimal.Notation
import StyleSense.Text.LineIndex

namespace StyleSense

open StyleSense.Text

namespace Color

/-- A channel as a byte, a half going up; what is no number is zero. -/
def toByte (x : Float) : Nat :=
  match Decimal.Double.ofFloat (clampUnit x * 255) with
  | .finite _ mantissa exponent =>
      let (num, den) := Decimal.fractionOf mantissa exponent
      min (Decimal.roundHalfUp num den) 255
  | _ => 0

/-- A number rounded to the nearest multiple of a fraction, a half going away
from zero. -/
def roundTo (factor : Float) (x : Float) : Float :=
  (x * factor).round / factor

/-- Two hexadecimal digits. -/
def hexByte (n : Nat) : String :=
  String.ofList ((Nat.toDigits 16 (256 + n)).drop 1)

/-- The digits of the three channels behind a hash. -/
def hexOpaque (c : Color) : String :=
  "#" ++ hexByte (toByte c.red) ++ hexByte (toByte c.green) ++ hexByte (toByte c.blue)

/-- The digits of channels and opacity behind a hash. -/
def hexFull (c : Color) : String :=
  c.hexOpaque ++ hexByte (toByte c.alpha)

/-- A function of three arguments. An opacity below one is a fourth argument,
to four places, and adds a letter to the name. -/
def functional (name : String) (arguments : List String) (alpha : Float) : String :=
  let (name, arguments) :=
    if alpha < 1 then
      (name ++ "a", arguments ++ [Decimal.formatNumber (roundTo 10000 (larger alpha 0))])
    else (name, arguments)
  name ++ "(" ++ ", ".intercalate arguments ++ ")"

/-- The color as its channels. -/
def rgb (c : Color) : String :=
  functional "rgb" ([c.red, c.green, c.blue].map fun x => toString (toByte x)) c.alpha

/-- The color as its hue. All three parts are rounded to two places. -/
def hsl (c : Color) : String :=
  let h := c.toHue
  let text (x : Float) := Decimal.formatNumber (roundTo 100 x)
  functional "hsl" [text h.hue, text (h.saturation * 100) ++ "%", text (h.lightness * 100) ++ "%"]
    c.alpha

end Color

/-- A color in a document, and where it stands. -/
structure Swatch where
  range : Range
  color : Color
  deriving Repr, Inhabited

namespace Swatch

/-- Halves what is in question, `size` swatches from `base` on, until one is
left: the last that does not start after a position, if any is. The swatches
are in the order of their starts. -/
def halve (swatches : List Swatch) (start : Position) (base size : Nat) : Nat :=
  if size ≤ 1 then base
  else
    let half := size / 2
    let starts := (swatches[base + half]?).any fun swatch => swatch.range.start.notAfter start
    halve swatches start (if starts then base + half else base) (size - half)
  termination_by size

/-- The swatch that starts at a position, among swatches in the order of their
starts. -/
def lastAt? (swatches : List Swatch) (start : Position) : Option Swatch :=
  (swatches[halve swatches start 0 swatches.length]?).filter fun swatch =>
    swatch.range.start = start

/-- The notations offered for a color at a range, where `swatches` are those
last shown. -/
def presentations (swatches : List Swatch) (range : Range) (color : Color) : List String :=
  let plain := (lastAt? swatches range.start).all fun swatch =>
    swatch.color.alpha == 0 || swatch.color.alpha == 1
  let hex := if color.alpha == 1 && plain then color.hexOpaque else color.hexFull
  [hex, color.rgb, color.hsl]

end Swatch

end StyleSense
