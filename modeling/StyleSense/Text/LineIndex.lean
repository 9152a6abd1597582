/-
# Lines

Editor positions are a line and a column, both counted from zero, columns in
UTF-16 code units. The index of a text keeps where its lines start. A column
past its line is the start of the next one, and a line past the last is the end
of the text.
-/

import StyleSense.Text.Measure

namespace StyleSense.Text

/-- A line and a column. -/
structure Position where
  line : UInt32
  character : UInt32
  deriving DecidableEq, Repr, Inhabited

/-- Positions from `start` to `stop`. -/
structure Range where
  start : Position
  stop : Position
  deriving DecidableEq, Repr, Inhabited

namespace Position

/-- Order by line, then by column. -/
def notAfter (a b : Position) : Bool :=
  a.line < b.line || (a.line = b.line && a.character ≤ b.character)

/-- A position given by natural numbers, which wrap at 32 bits. -/
def ofNats (line character : Nat) : Position :=
  ⟨UInt32.ofNat line, UInt32.ofNat character⟩

end Position

/-- Whether a position lies in a range, both ends included. -/
def Range.contains (r : Range) (p : Position) : Bool :=
  r.start.notAfter p && p.notAfter r.stop

/-- Where the lines of a text start, in code units, and where it ends. The first
line starts at zero. -/
structure LineIndex where
  later : List Nat
  size : Nat
  deriving DecidableEq, Repr

namespace LineIndex

/-- The places after the line feeds of a text that starts at `offset`. -/
def startsFrom (offset : Nat) : List Char → List Nat
  | [] => []
  | c :: rest =>
      let next := offset + unitWidth c
      if c = '\n' then next :: startsFrom next rest else startsFrom next rest

/-- The index of a text. -/
def ofText (text : List Char) : LineIndex :=
  ⟨startsFrom 0 text, unitLength text⟩

/-- The starts of all lines. -/
def starts (lines : LineIndex) : List Nat :=
  0 :: lines.later

/-- The number of lines. -/
def count (lines : LineIndex) : Nat :=
  lines.starts.length

/-- The position of an offset; one past the text is its end. -/
def positionAt (lines : LineIndex) (offset : Nat) : Position :=
  let offset := min offset lines.size
  let passed := lines.later.takeWhile (· ≤ offset)
  .ofNats passed.length (offset - passed.getLast?.getD 0)

/-- The offset of a position. -/
def offsetAt (lines : LineIndex) (p : Position) : Nat :=
  match lines.starts[p.line.toNat]? with
  | none => lines.size
  | some start =>
      min (start + p.character.toNat) ((lines.starts[p.line.toNat + 1]?).getD lines.size)

end LineIndex

end StyleSense.Text
