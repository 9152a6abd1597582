/-
# Located leaves

Leaves of a tree are made in the order of the source, and each is looked for
after the one before it. A word counts only where no other word touches it. A
leaf that is not found stands, without extent, where the search began.

The search for a word goes on one byte after a hit that another word touches.
When that byte lies inside a character, or past the end, the search fails.
-/

import StyleSense.Decimal.Notation
import StyleSense.Document
import StyleSense.Tree.Node

namespace StyleSense

open StyleSense.Text

/-- A source and the byte up to which leaves have been found. Spans start at
`base`. -/
structure Locator where
  source : List Char
  cursor : Nat
  base : UInt32
  deriving DecidableEq, Repr

namespace Locator

/-- A locator at the start of its source. -/
def new (source : String) (base : UInt32) : Locator :=
  ⟨source.toList, 0, base⟩

/-- The source that is still ahead. -/
def ahead (l : Locator) : List Char :=
  (dropBytes? l.cursor l.source).getD []

/-- The character before the cursor. -/
def behind? (l : Locator) : Option Char :=
  (takeBytes? l.cursor l.source).bind List.getLast?

/-- Characters of words. -/
def isWordChar (c : Char) : Bool :=
  isAlphanumeric c || c = '_' || c = '$'

/-- Whether a neighbour is part of a word. -/
def touches (neighbour : Option Char) : Bool :=
  neighbour.any isWordChar

/-- The byte of the first occurrence of `word` that no word touches. The text
stands at `byte`, after the character `previous`. -/
def findWord? (word : List Char) (previous : Option Char) (byte : Nat) :
    List Char → Except CutError (Option Nat)
  | [] =>
      if !word.isEmpty then .ok none
      else if touches previous then .error .noBoundary
      else .ok (some byte)
  | c :: rest =>
      if !word.isPrefixOf (c :: rest) then findWord? word (some c) (byte + c.utf8Size) rest
      else if !touches previous && !touches ((c :: rest).drop word.length).head? then
        .ok (some byte)
      else if c.utf8Size = 1 then findWord? word (some c) (byte + 1) rest
      else .error .noBoundary

/-- The span of `length` bytes at byte `found`, with the cursor behind them; or
an empty span at the cursor. -/
def claim (l : Locator) (found : Option Nat) (length : Nat) : Span × Locator :=
  let start := found.getD l.cursor
  let stop := if found.isSome then start + length else start
  (⟨l.base + UInt32.ofNat start, l.base + UInt32.ofNat stop⟩, { l with cursor := stop })

/-- The next occurrence of a word. -/
def word (l : Locator) (text : String) : Except CutError (Span × Locator) := do
  let found ← findWord? text.toList l.behind? l.cursor l.ahead
  pure (l.claim found text.utf8ByteSize)

/-- An identifier. -/
def identifier (l : Locator) (name : String) : Except CutError (Node × Locator) := do
  let (span, l) ← l.word name
  pure (.identifier span name none, l)

/-- A number, written with the fewest digits. -/
def number (l : Locator) (value : Float) : Except CutError (Node × Locator) := do
  let (span, l) ← l.word (Decimal.formatNumber value)
  pure (.number span value, l)

/-- A truth value. -/
def boolean (l : Locator) (value : Bool) : Except CutError (Node × Locator) := do
  let (span, l) ← l.word (if value then "true" else "false")
  pure (.boolean span value, l)

/-- The word `null`. -/
def null (l : Locator) : Except CutError (Node × Locator) := do
  let (span, l) ← l.word "null"
  pure (.null span, l)

/-- A text between quotes of either kind, whichever comes first. -/
def string (l : Locator) (value : String) : Node × Locator :=
  let quoted (quote : Char) := quote :: (value.toList ++ [quote])
  let single := findBytes? (quoted '\'') l.ahead
  let double := findBytes? (quoted '"') l.ahead
  let found := match single, double with
    | some a, some b => some (min a b)
    | some a, none => some a
    | none, b => b
  let (span, l) := l.claim (found.map (l.cursor + ·)) (value.utf8ByteSize + 2)
  (.string span value, l)

/-- A module from the source's first token to its end. -/
def module (l : Locator) (body : List Node) : Node :=
  .program .module
    ⟨l.base + UInt32.ofNat (leadingTrivia l.source), l.base + UInt32.ofNat (byteLength l.source)⟩
    body

end Locator

end StyleSense
