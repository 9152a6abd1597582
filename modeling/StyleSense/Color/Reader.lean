/-
# Reading colors

A text writes a color if it has the look of a function of channels or of a hue,
of hexadecimal digits behind a hash, or of a word, and a parser of stylesheet
colors reads it (`parse?`). Blanks around a color do not matter, and the words
for no color and for the current color write none.

Which parser reads it is left open. The one that runs, `read?`, knows the names,
the functions that are let through and hexadecimal digits, behind a hash or by
themselves.
-/

import StyleSense.Color.Basic
import StyleSense.Color.Named
import StyleSense.Decimal.Reader
import StyleSense.Text.Blank

namespace StyleSense.Color

open StyleSense.Text StyleSense.Decimal

/-- The color of three, four, six or eight hexadecimal digits. Fewer than six
stand for doubled ones; without digits for it, a color is opaque. -/
def ofDigits? (digits : List Char) : Option Color := do
  let values ← digits.mapM (digitValue? 16)
  match values with
  | [r, g, b] => some (ofBytes (17 * r) (17 * g) (17 * b) 255)
  | [r, g, b, a] => some (ofBytes (17 * r) (17 * g) (17 * b) (17 * a))
  | [r, r', g, g', b, b'] => some (ofBytes (16 * r + r') (16 * g + g') (16 * b + b') 255)
  | [r, r', g, g', b, b', a, a'] =>
      some (ofBytes (16 * r + r') (16 * g + g') (16 * b + b') (16 * a + a'))
  | _ => none

/-- An argument, and whether it is a percentage. -/
structure Amount where
  value : Float
  percent : Bool

/-- A percentage, or a number of which `whole` make one. -/
def readAmount? (whole : Float) (cs : List Char) : Option Amount :=
  match ['%'].isSuffixOf? cs with
  | some digits => (readNumberOrWord? digits).map fun x => ⟨x / 100, true⟩
  | none => (readNumberOrWord? cs).map fun x => ⟨x / whole, false⟩

/-- Units of angles with their size in degrees. -/
def angleUnits : List (String × (Float → Float)) :=
  [("deg", fun x => x), ("grad", fun x => x * 360 / 400),
    ("rad", fun x => x * (180 / 3.141592653589793)), ("turn", fun x => x * 360)]

/-- An angle in degrees, whose unit may be left out. -/
def readAngle? (cs : List Char) : Option Float :=
  let hit := angleUnits.findSome? fun (unit, toDegrees) =>
    (unit.toList.isSuffixOf? cs).map fun digits => (digits, toDegrees)
  match hit with
  | some (digits, toDegrees) => (readNumberOrWord? digits).map toDegrees
  | none => readNumberOrWord? cs

/-- The opacity, if it is written. -/
def readAlpha? : List (List Char) → Option Float
  | [] => some 1
  | [word] => (readAmount? 1 word).map fun a => clampUnit a.value
  | _ => none

/-- A color from its channels, which must all be percentages or all
numbers. -/
def ofChannels? (r g b : List Char) (alpha : Float) : Option Color := do
  let r ← readAmount? 255 r
  let g ← readAmount? 255 g
  let b ← readAmount? 255 b
  if r.percent = g.percent && g.percent = b.percent then
    some ⟨clampUnit r.value, clampUnit g.value, clampUnit b.value, alpha⟩
  else none

/-- A color from its hue; the other two must both be percentages or both
numbers. -/
def ofHue? (h s l : List Char) (alpha : Float) : Option Color := do
  let h ← readAngle? h
  let s ← readAmount? 1 s
  let l ← readAmount? 1 l
  if s.percent = l.percent then some (ofHue ⟨h, s.value, l.value⟩ alpha) else none

/-- The arguments of a function. Commas and slashes separate like blanks. -/
def arguments (cs : List Char) : List (List Char) :=
  splitBlanks (cs.map fun c => if c = ',' || c = '/' then ' ' else c)

/-- A function of three arguments and perhaps an opacity. Its arguments may be
upper case. -/
def ofFunction? (text : List Char) : Option Color := do
  let (name, rest) ← splitOnce? ['('] text
  let inner ← [')'].isSuffixOf? rest
  match arguments (lowerAscii inner) with
  | x :: y :: z :: rest => do
      let alpha ← readAlpha? rest
      let name := String.ofList (trimEnd name)
      if name = "rgb" || name = "rgba" then ofChannels? x y z alpha
      else if name = "hsl" || name = "hsla" then ofHue? x y z alpha
      else none
  | _ => none

/-- The parser of stylesheet colors that runs. Functions other than those of
channels and of a hue are not let through to it. -/
def read? (text : List Char) : Option Color :=
  match text with
  | '#' :: digits => ofDigits? digits
  | _ =>
      if text = "transparent".toList then some ⟨0, 0, 0, 0⟩
      else match named? (String.ofList text) with
        | some value => some (ofBytes (value / 65536) (value / 256 % 256) (value % 256) 255)
        | none => (ofFunction? text).orElse fun _ => ofDigits? text

/-- The names of the functions that are let through. Only lower case ones are. -/
def functionNames : List String := ["rgb", "rgba", "hsl", "hsla"]

/-- A name from the list, then arguments of any kind in parentheses. -/
def isFunction (text : List Char) : Bool :=
  match splitOnce? ['('] text with
  | none => false
  | some (name, rest) =>
      functionNames.contains (String.ofList (trimEnd name)) &&
        match [')'].isSuffixOf? rest with
        | none => false
        | some inner => !inner.contains ')' && !inner.isEmpty

/-- Hexadecimal digits behind a hash, in any number. -/
def isHash : List Char → Bool
  | '#' :: digits => !digits.isEmpty && digits.all isHexDigit
  | _ => false

/-- Lower case letters. -/
def isLower (c : Char) : Bool :=
  'a' ≤ c && c ≤ 'z'

/-- A word in lower case, whether it names a color or not. -/
def isWord (text : List Char) : Bool :=
  !text.isEmpty && text.all isLower

/-- The color that a text writes, as a parser of stylesheet colors reads it. -/
def parse? (parser : List Char → Option Color) (text : String) : Option Color :=
  let trimmed := trim text.toList
  let lowered := String.ofList (lowerAscii trimmed)
  if lowered = "transparent" || lowered = "currentcolor" then none
  else if isFunction trimmed || isHash trimmed || isWord trimmed then parser trimmed
  else none

/-- The color that a text writes. -/
def ofText? (text : String) : Option Color :=
  parse? read? text

end StyleSense.Color
