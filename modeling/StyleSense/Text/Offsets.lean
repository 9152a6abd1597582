/-
# Offsets

Leads from byte offsets, which spans use, to indices in larger units, which
editors use, and back. A text is a row of segments, each with a size in bytes
and a width in units. An offset inside a segment is rounded up to its end, and
one past the text is the text's end.

A table keeps a checkpoint at every thousandth segment, so that a look-up scans
one chunk and not the whole text. `Segment.indexAt` and `Segment.byteAt` are
the scans of a whole row.
-/

import StyleSense.Text.Measure
import StyleSense.Text.Cluster

namespace StyleSense.Text

/-- A unit of text: its bytes and its width. -/
structure Segment where
  bytes : Nat
  width : Nat
  deriving DecidableEq, Repr

/-- What an index counts. -/
inductive Granularity
  /-- UTF-16 code units, as editors count columns. -/
  | unit
  /-- Grapheme clusters. -/
  | grapheme
  deriving DecidableEq, Repr

/-- The segments of a text whose clusters are those that `cut` finds. -/
def segmentsBy (cut : List Char → List (List Char)) : Granularity → List Char → List Segment
  | .unit, cs => cs.map fun c => ⟨c.utf8Size, unitWidth c⟩
  | .grapheme, cs => (cut cs).map fun cluster => ⟨byteLength cluster, 1⟩

/-- The segments of a text. -/
def segments (granularity : Granularity) (cs : List Char) : List Segment :=
  segmentsBy clusters granularity cs

namespace Segment

/-- The width of the segments that start before a byte offset. -/
def indexAt : List Segment → Nat → Nat
  | _, 0 => 0
  | [], _ + 1 => 0
  | s :: rest, offset + 1 => s.width + indexAt rest (offset + 1 - s.bytes)

/-- The bytes of the fewest leading segments that are at least `index` wide. -/
def byteAt : List Segment → Nat → Nat
  | _, 0 => 0
  | [], _ + 1 => 0
  | s :: rest, index + 1 => s.bytes + byteAt rest (index + 1 - s.width)

end Segment

/-- Segments from some place on, and where that place is. -/
structure Checkpoint where
  byte : Nat
  index : Nat
  rest : List Segment

/-- Segments from one checkpoint to the next. -/
def chunkSize : Nat := 1000

/-- A checkpoint at every `chunkSize`-th segment of the row but the first.
`left` segments remain until the next one. -/
def checkpointsFrom (byte index : Nat) : Nat → List Segment → List Checkpoint
  | _, [] => []
  | left + 1, s :: rest => checkpointsFrom (byte + s.bytes) (index + s.width) left rest
  | 0, s :: rest =>
      ⟨byte, index, s :: rest⟩ ::
        checkpointsFrom (byte + s.bytes) (index + s.width) (chunkSize - 1) rest

/-- A text with its checkpoints. -/
structure OffsetTable where
  text : List Char
  first : Checkpoint
  later : List Checkpoint

namespace OffsetTable

/-- The table of a text with these segments. -/
def ofSegments (text : List Char) (row : List Segment) : OffsetTable :=
  ⟨text, ⟨0, 0, row⟩, checkpointsFrom 0 0 chunkSize row⟩

/-- The table of a text. -/
def ofText (granularity : Granularity) (text : List Char) : OffsetTable :=
  ofSegments text (segments granularity text)

/-- The last checkpoint among those that satisfy `p`; they come first. -/
def lastWhile (p : Checkpoint → Bool) (t : OffsetTable) : Checkpoint :=
  ((t.later.takeWhile p).getLast?).getD t.first

/-- The index of a byte offset. -/
def indexOfByte (t : OffsetTable) (offset : Nat) : Nat :=
  let c := t.lastWhile (·.byte ≤ offset)
  c.index + Segment.indexAt c.rest (offset - c.byte)

/-- The byte offset of an index. -/
def byteOfIndex (t : OffsetTable) (index : Nat) : Nat :=
  let c := t.lastWhile (·.index ≤ index)
  c.byte + Segment.byteAt c.rest (index - c.index)

/-- The number of units in the text. -/
def size (t : OffsetTable) : Nat :=
  t.indexOfByte (byteLength t.text)

/-- Whether the text is empty. -/
def isEmpty (t : OffsetTable) : Bool :=
  t.text.isEmpty

end OffsetTable

end StyleSense.Text
