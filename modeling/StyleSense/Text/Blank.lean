/-
# Blank characters

The characters with the Unicode property White_Space. Trimming removes them at
both ends and nowhere else.
-/

namespace StyleSense.Text

/-- Code point ranges of the property White_Space. -/
def blankRanges : List (Nat × Nat) :=
  [(0x09, 0x0D), (0x20, 0x20), (0x85, 0x85), (0xA0, 0xA0), (0x1680, 0x1680),
    (0x2000, 0x200A), (0x2028, 0x2029), (0x202F, 0x202F), (0x205F, 0x205F), (0x3000, 0x3000)]

/-- Blank characters are those of the table. -/
def isBlank (c : Char) : Bool :=
  blankRanges.any fun (first, last) => first ≤ c.toNat && c.toNat ≤ last

/-- The text without blanks at its start. -/
def trimStart (cs : List Char) : List Char :=
  cs.dropWhile isBlank

/-- The text without blanks at its end. -/
def trimEnd (cs : List Char) : List Char :=
  (cs.reverse.dropWhile isBlank).reverse

/-- The text without blanks at both ends. -/
def trim (cs : List Char) : List Char :=
  trimEnd (trimStart cs)

/-- The runs between blanks, in order. -/
def splitBlanks (cs : List Char) : List (List Char) :=
  go cs []
where
  /-- The run read so far is `word`, last character first. -/
  go : List Char → List Char → List (List Char)
    | [], word => if word.isEmpty then [] else [word.reverse]
    | c :: rest, word =>
        if isBlank c then
          if word.isEmpty then go rest [] else word.reverse :: go rest []
        else go rest (c :: word)

end StyleSense.Text
