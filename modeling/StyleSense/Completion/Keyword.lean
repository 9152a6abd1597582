/-
# Keyword completion

Completes the word before a position in a declaration sheet. A word is a run of
ASCII letters, digits and hyphens within the value; keywords that start with it,
in any case, are suggested in its place. Custom properties take anything, so
every table is suggested for them.

The offset of a position counts code units while words are cut at bytes; the two
agree where the sheet is ASCII up to the position. A word that would start inside
a character of several bytes cannot be cut.
-/

import StyleSense.Completion.Declaration
import StyleSense.Completion.Table
import StyleSense.Style.Normalize

namespace StyleSense.Completion

open StyleSense.Text StyleSense.Style

/-- Where a suggestion comes from. -/
inductive SuggestionKind
  | value
  | color
  | keyword
  deriving DecidableEq, Repr

/-- The name of a suggestion's kind. -/
def SuggestionKind.text : SuggestionKind → String
  | value => "Value"
  | color => "Color"
  | keyword => "Keyword"

/-- A keyword, and the range it replaces. -/
structure Suggestion where
  label : String
  kind : SuggestionKind
  range : Range
  deriving DecidableEq, Repr

/-- The first occurrence of each label, where those of `seen` have occurred
already. -/
def firstOfEach (seen : List String) :
    List (String × SuggestionKind) → List (String × SuggestionKind)
  | [] => []
  | (label, kind) :: rest =>
      if seen.contains label then firstOfEach seen rest
      else (label, kind) :: firstOfEach (label :: seen) rest

/-- What may be suggested for a property, each label once. -/
def candidates (property : String) : List (String × SuggestionKind) :=
  let own := (propertyKeywords.filter fun (name, _) => isCustom property || name = property)
    |>.flatMap fun (_, keywords) => keywords.map fun label => (label, SuggestionKind.value)
  let colors := if isCustom property || colorProperties.contains property then
    colorKeywords.map fun label => (label, SuggestionKind.color) else []
  firstOfEach [] (own ++ colors ++ globalKeywords.map fun label => (label, .keyword))

/-- Characters of words. -/
def isWordChar (c : Char) : Bool :=
  isAlphanumeric c || c = '-'

/-- The byte after the first byte of the last character that belongs to no
word, if there is one. `byte` is where the text starts. -/
def afterLastBreak? (byte : Nat) : List Char → Option Nat
  | [] => none
  | c :: rest =>
      match afterLastBreak? (byte + c.utf8Size) rest with
      | some found => some found
      | none => if isWordChar c then none else some (byte + 1)

/-- The suggestions at a position. -/
def complete (d : Declaration) (p : Position) : Except CutError (List Suggestion) :=
  let text := d.sheet
  let offset := min (d.offsetAt p) (byteLength text)
  if offset < d.valueStart || !isBoundary text offset then .ok []
  else do
    let before ← slice text d.valueStart offset
    let start := (afterLastBreak? d.valueStart before).getD d.valueStart
    let word ← slice text start offset
    let range : Range := ⟨d.positionAt start, p⟩
    pure <| (candidates d.property).filterMap fun (label, kind) =>
      if (lowerAscii word).isPrefixOf label.toList then some ⟨label, kind, range⟩ else none

end StyleSense.Completion
