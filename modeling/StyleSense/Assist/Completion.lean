/-
# Completion in style literals

The string literal under the cursor is copied into a declaration sheet, the
sheet is completed, and the ranges are moved back onto the source. Properties
are the keys of the second level below a style call. Theme values may be
anything, so they are completed as those of a custom property; the texts of
`content` are never completed.
-/

import StyleSense.Assist.Notes
import StyleSense.Completion.Keyword

namespace StyleSense.Assist

open StyleSense.Text StyleSense.Completion

/-- Suggestions at a position; more may come with the next character. -/
structure CompletionList where
  items : List Suggestion
  incomplete : Bool
  deriving DecidableEq, Repr

namespace Completing

/-- The property that stands for the values of themes. -/
def themeProperty : String := "--stylelens-custom"

/-- The property that stands for one that is not known. -/
def unknownProperty : String := "--custom"

/-- Where the walk is. -/
structure Place where
  call : Option CallKind
  property : Option String
  /-- The number of objects around it, the style call's own counted. -/
  depth : Nat
  deriving Repr

/-- Outside of all calls. -/
def Place.outside : Place :=
  ⟨none, none, 0⟩

/-- What a request is about. -/
structure Query where
  document : Document
  base : UInt32
  position : Position

/-- Whether the cursor is on a line of the span. -/
def Query.nears (q : Query) (span : Span) : Bool :=
  let range := q.document.rangeOfSpan span q.base
  range.start.line ≤ q.position.line && q.position.line ≤ range.stop.line

/-- What a call hands down. A list of fallbacks belongs to its property. -/
def enterCall (t : Tracker) (callee : Node) (place : Place) : Flow Place :=
  match styleCall? t callee with
  | some kind =>
      .replaceIgnoring { place with call := some kind, depth := 1 } (unstyledChildren kind)
  | none =>
      if t.resolveCallee? callee = some .firstThatWorks then .continue
      else .replace { place with call := none }

/-- Whether a value is an object. -/
def isObject : Node → Bool
  | .object .. => true
  | _ => false

/-- What a key hands down. -/
def enterPair (t : Tracker) (key value : Node) (place : Place) : Flow Place :=
  match place.call with
  | none => .continue
  | some call =>
      if call.isTheme then
        .replace { place with
          property := some themeProperty
          depth := if isObject value then place.depth + 1 else place.depth }
      else if place.depth = 2 then
        .replace { place with property := t.propertyKey? key, depth := 3 }
      else .replace { place with depth := place.depth + 1 }

/-- A coordinate moved by the difference of two others; zero is the least. -/
def moved (x target origin : UInt32) : UInt32 :=
  UInt32.ofNat ((x.toNat : Int) + ((target.toNat : Int) - (origin.toNat : Int))).toNat

/-- A range moved as `origin` moves to `target`. -/
def shift (range : Range) (target origin : Position) : Range :=
  let move (p : Position) : Position :=
    ⟨moved p.line target.line origin.line, moved p.character target.character origin.character⟩
  ⟨move range.start, move range.stop⟩

/-- The suggestions inside a literal, for a cursor within its range. -/
def suggest (q : Query) (property value : String) (start : Position) :
    Except CutError (List Suggestion) := do
  let declaration : Declaration := ⟨Style.dashify property, value⟩
  let inside := q.position.character.toNat - start.character.toNat
  let place := declaration.positionAt (declaration.mapOffset inside)
  let items ← complete declaration place
  pure (items.map fun item => { item with range := shift item.range q.position place })

/-- Whether a literal is the key of the pair around it. -/
def isKey (span : Span) : Option Node → Bool
  | some (.pair .property key _) => key.span = span
  | _ => false

/-- Completes a literal that the cursor is in. -/
def enterLiteral (q : Query) (span : Span) (value : String) (place : Place)
    (notes : Notes (List Suggestion)) : Flow Place × Notes (List Suggestion) :=
  if place.call.isNone || place.property = some "content" then (.continue, notes)
  else
    let range := q.document.rangeOfSpan span q.base
    if !range.contains q.position then (.skip, notes)
    else
      match suggest q (place.property.getD unknownProperty) value range.start with
      | .ok items => (.exit, { notes with found := items })
      | .error error => (.exit, { notes with failure := some (.cut error) })

/-- Looks at a node. -/
def look (q : Query) (node : Node) (parent : Option Node) (place : Place)
    (notes : Notes (List Suggestion)) : Flow Place × Notes (List Suggestion) :=
  match node with
  | .call _ callee _ _ => (enterCall notes.tracker callee place, notes)
  | .pair .property key value => (enterPair notes.tracker key value place, notes)
  | .string span value =>
      if isKey span parent then (.continue, notes) else enterLiteral q span value place notes
  | _ => (.continue, notes)

end Completing

/-- The suggestions at a position; none when the request is called off. -/
def completions? (document : Document) (tree : Node) (tracker : Tracker) (position : Position)
    (token : Token) : Except Failure (Option CompletionList) :=
  let q : Completing.Query := ⟨document, spanBase document tree, position⟩
  let v := visitor token (fun node => !q.nears node.span) (Completing.look q)
  let (outcome, notes) := v.walk tree Completing.Place.outside (.start tracker [])
  (notes.finish outcome).map fun items => items.map (⟨·, true⟩)

end StyleSense.Assist
