/-
# Normalized values

A style value is normalized the way a style compiler emits it. Numbers are
rounded to four places and take the unit of their property. Blanks in text
collapse, and a zero that only leads a fraction is dropped: `0.5em` becomes
`.5em`. Properties that hold text of their own are quoted.
-/

import StyleSense.Text.Measure
import StyleSense.Text.Blank
import StyleSense.Decimal.Notation

namespace StyleSense.Style

open StyleSense.Text StyleSense.Decimal

/-- A style value before normalization. -/
inductive Scalar
  | text (text : String)
  | number (value : Float)

/-- Properties whose numbers take no unit. -/
def unitless : List String :=
  ["animationIterationCount", "aspectRatio", "borderImageOutset", "borderImageSlice",
    "borderImageWidth", "boxFlex", "boxFlexGroup", "boxOrdinalGroup", "columnCount", "columns",
    "fillOpacity", "flex", "flexGrow", "flexNegative", "flexOrder", "flexPositive", "flexShrink",
    "floodOpacity", "fontWeight", "gridArea", "gridColumn", "gridColumnEnd", "gridColumnSpan",
    "gridColumnStart", "gridRow", "gridRowEnd", "gridRowSpan", "gridRowStart", "lineClamp",
    "lineHeight", "mathDepth", "opacity", "order", "orphans", "stopOpacity", "strokeDasharray",
    "strokeDashoffset", "strokeMiterlimit", "strokeOpacity", "strokeWidth", "tabSize", "widows",
    "zIndex", "zoom"]

/-- Properties whose numbers are milliseconds. -/
def times : List String :=
  ["animationDelay", "animationDuration", "transitionDelay", "transitionDuration"]

/-- Properties that hold text. -/
def textual : List String :=
  ["content", "quotes", "hyphenateCharacter"]

/-- Keywords that are no text there. -/
def textKeywords : List String :=
  ["normal", "none", "open-quote", "close-quote", "no-open-quote", "no-close-quote", "inherit",
    "initial", "revert", "revert-layer", "unset"]

/-- Whether a name declares a custom property. -/
def isCustom (name : String) : Bool :=
  "--".toList.isPrefixOf name.toList

/-- A number rounded to four places, a half going away from zero. -/
def roundPlaces (x : Float) : Float :=
  (x * 10000).round / 10000

/-- Whether a zero stands before the digits of a fraction in `rest`. -/
def leadsFraction : List Char → Bool
  | '.' :: d :: _ => isDigit d
  | _ => false

/-- Drops zeros that lead a fraction and neither follow a letter or digit nor
a point. `previous` is the character before the text. -/
def stripZerosFrom (previous : Option Char) : List Char → List Char
  | [] => []
  | c :: rest =>
      let startsNumber := !previous.any fun p => isAlphanumeric p || p = '.'
      let tail := stripZerosFrom (some c) rest
      if c = '0' && startsNumber && leadsFraction rest then tail else c :: tail

/-- Drops zeros that lead a fraction, leaving `10.5` and names alone. -/
def stripLeadingZeros (text : String) : String :=
  String.ofList (stripZerosFrom none text.toList)

/-- Text with a single blank in place of each run of blanks, and none at its
ends. -/
def collapseBlanks (text : String) : String :=
  String.ofList (List.intercalate [' '] (splitBlanks text.toList))

/-- Whether the text stands between two quotes of one kind. -/
def isQuoted (cs : List Char) : Bool :=
  2 ≤ cs.length &&
    ((cs.head? = some '"' && cs.getLast? = some '"') ||
      (cs.head? = some '\'' && cs.getLast? = some '\''))

/-- Text for a property that holds text: quoted, unless it already is, calls a
function or is a keyword. -/
def quoteText (text : String) : String :=
  if isQuoted text.toList || text.toList.contains '(' || textKeywords.contains text then text
  else "\"" ++ text ++ "\""

/-- The unit of a property's numbers. -/
def unitOf (property : String) : String :=
  if isCustom property || unitless.contains property then ""
  else if times.contains property then "ms"
  else "px"

/-- What a value of a property, named as in source, becomes in a stylesheet. -/
abbrev Normalization := String → Scalar → String

/-- How values are normalized. -/
structure Normalizer where
  /-- Font sizes in `rem`, sixteen pixels each. -/
  remFontSize : Bool

namespace Normalizer

/-- A normalized number. -/
def number (n : Normalizer) (property : String) (x : Float) : String :=
  if property = "fontSize" && n.remFontSize then formatNumber (roundPlaces (x / 16)) ++ "rem"
  else
    let rounded := roundPlaces x
    if rounded == 0 then "0"
    else stripLeadingZeros (formatNumber rounded ++ unitOf property)

/-- Normalized text. -/
def text (_ : Normalizer) (property : String) (s : String) : String :=
  if s = "" then "\"\""
  else
    let collapsed := collapseBlanks s
    if textual.contains property then quoteText collapsed
    else if isCustom property then collapsed
    else stripLeadingZeros collapsed

/-- A normalized value of a property. -/
def normalize (n : Normalizer) : Normalization
  | property, .text s => n.text property s
  | property, .number x => n.number property x

instance : Coe Normalizer Normalization := ⟨normalize⟩

end Normalizer

end StyleSense.Style
