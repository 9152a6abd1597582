/-
# Declaration sheets

A stylesheet of one declaration, in which a style value is completed. Offsets in
the source literal, its opening quote counted as zero, map to offsets in the
sheet: the character after the quote is the first of the value.
-/

import StyleSense.Text.LineIndex

namespace StyleSense.Completion

open StyleSense.Text

/-- What stands before the declaration. -/
def sheetHead : List Char := ":root\x7b\n".toList

/-- What stands after the value. -/
def sheetTail : List Char := ";\n\x7d".toList

/-- Property and value of the one declaration. -/
structure Declaration where
  property : String
  value : String
  deriving DecidableEq, Repr

namespace Declaration

/-- The text of the sheet. -/
def sheet (d : Declaration) : List Char :=
  sheetHead ++ d.property.toList ++ ": ".toList ++ d.value.toList ++ sheetTail

/-- The lines of the sheet. -/
def lines (d : Declaration) : LineIndex :=
  .ofText d.sheet

/-- The byte of the first `: ` in the declaration. -/
def separator (d : Declaration) : Nat :=
  sheetHead.length + (findBytes? ": ".toList (d.sheet.drop sheetHead.length)).getD 0

/-- The byte after the separator. -/
def valueStart (d : Declaration) : Nat :=
  d.separator + 2

/-- The byte of the last text like the sheet's tail, but no earlier than the value. -/
def valueStop (d : Declaration) : Nat :=
  max ((findLastBytes? sheetTail d.sheet).getD (byteLength d.sheet)) d.valueStart

/-- The value as the sheet holds it: from the first `: ` to the last text like the
sheet's tail. -/
def sheetValue (d : Declaration) : String :=
  String.ofList ((slice? d.sheet d.valueStart d.valueStop).getD [])

/-- The sheet's offset for an offset in the source literal. -/
def mapOffset (d : Declaration) (offset : Nat) : Nat :=
  offset + d.separator + 1

/-- The position of an offset in the sheet. -/
def positionAt (d : Declaration) (offset : Nat) : Position :=
  d.lines.positionAt offset

/-- The offset of a position in the sheet. -/
def offsetAt (d : Declaration) (p : Position) : Nat :=
  d.lines.offsetAt p

end Declaration

end StyleSense.Completion
