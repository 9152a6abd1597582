/-
# Documents

An open document keeps its text with the tables that lead from spans and bytes
to editor positions and back. Parsers that share a source map across files hand
out growing offsets, so a tree's spans are relative to a base: the start of the
module less the blanks and comments before it.
-/

import StyleSense.Text.Blank
import StyleSense.Text.LineIndex
import StyleSense.Text.Offsets
import StyleSense.Tree.Span

namespace StyleSense

open StyleSense.Text

/-- Blanks before a module's first token; a byte order mark counts. -/
def isTrivia (c : Char) : Bool :=
  isBlank c || c.toNat = 0xFEFF

/-- The text after a block comment that is already open. -/
def afterBlockComment? : List Char → Option (List Char)
  | [] => none
  | '*' :: '/' :: rest => some rest
  | _ :: rest => afterBlockComment? rest

/-- The text from its first line feed on. -/
def fromLineFeed (cs : List Char) : List Char :=
  cs.dropWhile (· ≠ '\n')

theorem length_afterBlockComment {cs rest : List Char} (h : afterBlockComment? cs = some rest) :
    rest.length < cs.length := by
  fun_induction afterBlockComment? cs with
  | case1 => simp at h
  | case2 tail => cases h; simp only [List.length_cons]; omega
  | case3 c tail _ ih =>
      have := ih h
      simp
      omega

theorem length_dropWhile_le (p : Char → Bool) (cs : List Char) :
    (cs.dropWhile p).length ≤ cs.length :=
  (List.dropWhile_sublist p).length_le

/-- The text after leading blanks and comments; nothing after a block comment
that is never closed. -/
def skipTrivia (cs : List Char) : List Char :=
  match h : cs.dropWhile isTrivia with
  | '/' :: '/' :: rest =>
      have : (fromLineFeed rest).length < cs.length := by
        have h₁ := length_dropWhile_le isTrivia cs
        have h₂ := length_dropWhile_le (· ≠ '\n') rest
        rw [h] at h₁
        simp [fromLineFeed] at h₁ h₂ ⊢
        omega
      skipTrivia (fromLineFeed rest)
  | '/' :: '*' :: rest =>
      match hc : afterBlockComment? rest with
      | some after =>
          have : after.length < cs.length := by
            have h₁ := length_dropWhile_le isTrivia cs
            have h₂ := length_afterBlockComment hc
            rw [h] at h₁
            simp at h₁
            omega
          skipTrivia after
      | none => []
  | rest => rest
termination_by cs.length

/-- The bytes of leading blanks, comments and a line that names an
interpreter. -/
def leadingTrivia (cs : List Char) : Nat :=
  let body := match cs with
    | '#' :: '!' :: _ => fromLineFeed cs
    | _ => cs
  byteLength cs - byteLength (skipTrivia body)

/-- An open document. -/
structure Document where
  uri : String
  languageId : String
  version : Int
  text : String
  offsets : OffsetTable
  lines : LineIndex
  trivia : Nat
  /-- The tables are those of the text. -/
  offsets_eq : offsets = .ofText .unit text.toList
  lines_eq : lines = .ofText text.toList
  trivia_eq : trivia = leadingTrivia text.toList

namespace Document

/-- A document with the tables of its text. -/
def new (uri languageId : String) (version : Int) (text : String) : Document :=
  { uri, languageId, version, text
    offsets := .ofText .unit text.toList
    lines := .ofText text.toList
    trivia := leadingTrivia text.toList
    offsets_eq := rfl
    lines_eq := rfl
    trivia_eq := rfl }

/-- Subtraction that stops at zero. -/
def saturatingSub (a b : UInt32) : UInt32 :=
  if a < b then 0 else a - b

/-- Addition that stops at the largest number. -/
def saturatingAdd (a b : UInt32) : UInt32 :=
  if a.toNat + b.toNat < 4294967296 then a + b else 4294967295

/-- The parser's offset of the document's first byte, from the start of the
module. -/
def spanBase (d : Document) (moduleStart : UInt32) : UInt32 :=
  saturatingSub moduleStart (UInt32.ofNat d.trivia)

/-- The byte that a parser's offset names. -/
def localByte (offset base : UInt32) : Nat :=
  (saturatingSub offset base).toNat

/-- The parser's offset of a byte. -/
def globalByte (byte : Nat) (base : UInt32) : UInt32 :=
  saturatingAdd base (UInt32.ofNat byte)

/-- The position of a byte. -/
def positionOfByte (d : Document) (byte : Nat) : Position :=
  d.lines.positionAt (d.offsets.indexOfByte byte)

/-- The byte of a position. -/
def byteOfPosition (d : Document) (p : Position) : Nat :=
  d.offsets.byteOfIndex (d.lines.offsetAt p)

/-- The range between two bytes. -/
def rangeOf (d : Document) (start stop : Nat) : Range :=
  ⟨d.positionOfByte start, d.positionOfByte stop⟩

/-- The range of a span. -/
def rangeOfSpan (d : Document) (span : Span) (base : UInt32) : Range :=
  d.rangeOf (localByte span.start base) (localByte span.stop base)

/-- The text of a span, if it is one. -/
def textOfSpan? (d : Document) (span : Span) (base : UInt32) : Option String :=
  (slice? d.text.toList (localByte span.start base) (localByte span.stop base)).map String.ofList

/-- The character that starts at a byte; none where no character starts. -/
def charAt? (d : Document) (byte : Nat) : Option Char :=
  (dropBytes? byte d.text.toList).bind List.head?

end Document

end StyleSense
