/-
# Colors

A color is three channels and an opacity, each nominally from zero to one.
Channels may be anything that a double holds: they are confined to their range
where they are used, and a channel that is no number stays one.
-/

import StyleSense.Decimal.Double

namespace StyleSense

/-- Red, green, blue and opacity. -/
structure Color where
  red : Float
  green : Float
  blue : Float
  alpha : Float
  deriving Repr, Inhabited

/-- Hue in degrees, saturation and lightness. -/
structure Hue where
  hue : Float
  saturation : Float
  lightness : Float
  deriving Repr, Inhabited

namespace Color

/-- The nearest number from zero to one. -/
def clampUnit (x : Float) : Float :=
  if x < 0 then 0 else if 1 < x then 1 else x

/-- The larger number; one that is no number yields. -/
def larger (x y : Float) : Float :=
  if x.isNaN || x < y then y else x

/-- The smaller number; one that is no number yields. -/
def smaller (x y : Float) : Float :=
  if x.isNaN || y < x then y else x

/-- The remainder that is never negative. -/
def positiveRemainder (x period : Float) : Float :=
  let rest := Decimal.remainder x period
  if rest < 0 then rest + period else rest

/-- An angle in degrees within one turn. -/
def withinTurn (degrees : Float) : Float :=
  positiveRemainder degrees 360

/-- One channel of a hue: `x` is the angle in sixths of a turn from the
channel's own place, and the channel rises from `low` to `high` and falls
again. -/
def hueChannel (low high x : Float) : Float :=
  let x := Decimal.remainder (Decimal.remainder x 6 + 6) 6
  if x < 1 then low + (high - low) * x
  else if x < 3 then high
  else if x < 4 then low + (high - low) * (4 - x)
  else low

/-- The color of a hue; all parts are brought into their ranges first. -/
def ofHue (c : Hue) (alpha : Float) : Color :=
  let s := clampUnit c.saturation
  let l := clampUnit c.lightness
  let alpha := clampUnit alpha
  if s == 0 then ⟨l, l, l, alpha⟩
  else
    let high := if l < 0.5 then l * (1 + s) else l + s - l * s
    let low := 2 * l - high
    let sixths := withinTurn c.hue / 60
    ⟨clampUnit (hueChannel low high (sixths + 2)), clampUnit (hueChannel low high sixths),
      clampUnit (hueChannel low high (sixths - 2)), alpha⟩

/-- The hue of a color. A gray has none. -/
def toHue (c : Color) : Hue :=
  let r := clampUnit c.red
  let g := clampUnit c.green
  let b := clampUnit c.blue
  let high := larger (larger r g) b
  let low := smaller (smaller r g) b
  let lightness := (high + low) / 2
  let delta := high - low
  if delta == 0 then ⟨0, 0, lightness⟩
  else
    let hue :=
      if high == r then 60 * positiveRemainder ((g - b) / delta) 6
      else if high == g then 60 * ((b - r) / delta + 2)
      else 60 * ((r - g) / delta + 4)
    ⟨hue, delta / (1 - (2 * lightness - 1).abs), lightness⟩

/-- A color of three bytes and an opacity. -/
def ofBytes (red green blue alpha : Nat) : Color :=
  let channel (n : Nat) := Float.ofNat n / 255
  ⟨channel red, channel green, channel blue, channel alpha⟩

end Color

end StyleSense
