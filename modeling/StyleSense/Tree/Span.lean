/-
# Spans

A span is a half-open byte range in the coordinates of the parser that made a
tree. Spans that a tree leaves out are `0..0`; they stand for no place and
yield to any other when spans are joined.
-/

namespace StyleSense

/-- A half-open byte range in the parser's coordinates. -/
structure Span where
  start : UInt32
  stop : UInt32
  deriving DecidableEq, Repr, Inhabited

namespace Span

/-- The span of a node that has none. -/
def none : Span := ⟨0, 0⟩

/-- Whether the span stands for no place. -/
def isNone (s : Span) : Bool :=
  s.start = 0 && s.stop = 0

/-- The smallest span over both; a span that stands for no place is left
out. -/
def union (a b : Span) : Span :=
  if a.isNone then b
  else if b.isNone then a
  else ⟨min a.start b.start, max a.stop b.stop⟩

/-- The join of several spans, from the left. -/
def unionAll (spans : List Span) : Span :=
  spans.foldl union none

/-- Both ends count, so that a cursor right behind a token still hits it. -/
def contains (s : Span) (offset : UInt32) : Bool :=
  s.start ≤ offset && offset ≤ s.stop

variable {s a b : Span}

theorem isNone_eq_false (h : s ≠ none) : s.isNone = false := by
  obtain ⟨start, stop⟩ := s
  simpa [isNone, none] using h

theorem union_of_ne_none (ha : a ≠ none) (hb : b ≠ none) :
    a.union b = ⟨min a.start b.start, max a.stop b.stop⟩ := by
  rw [union, isNone_eq_false ha, isNone_eq_false hb]
  rfl

end Span

end StyleSense
