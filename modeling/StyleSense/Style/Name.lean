/-
# Dashed names

The name of a style property in a stylesheet: `backgroundColor` is written
`background-color` there, and `WebkitAppearance` is `-webkit-appearance`.
-/

import StyleSense.Text.Measure

namespace StyleSense.Style

/-- ASCII capitals. -/
def isCapital (c : Char) : Bool :=
  'A' ≤ c && c ≤ 'Z'

/-- ASCII small letters. -/
def isSmall (c : Char) : Bool :=
  'a' ≤ c && c ≤ 'z'

/-- Lowers every capital, with a hyphen before one that starts the text or
follows a small letter. `previous` is the character before the text. -/
def dashFrom (previous : Option Char) : List Char → List Char
  | [] => []
  | c :: rest =>
      let tail := c.toLower :: dashFrom (some c) rest
      if isCapital c && previous.all isSmall then '-' :: tail else tail

/-- The dashed form of a name. -/
def dashify (name : String) : String :=
  String.ofList (dashFrom none name.toList)

end StyleSense.Style
