/-
# Color swatches

Finds the colors that a document writes as literals: values below a style call,
alone or in a list, and the literal types among the arguments of a style type.
A value that names a constant is shown where the constant is written, and then
only if it is written between quotes. Colors without any opacity are not shown.
-/

import StyleSense.Assist.Notes
import StyleSense.Color.Presentation
import StyleSense.Color.Reader

namespace StyleSense.Assist

open StyleSense.Text

namespace Coloring

/-- What a request is about. -/
structure Query where
  document : Document
  base : UInt32

/-- The swatch of a text at a span: the color between the quotes. -/
def swatch? (q : Query) (text : String) (span : Span) : Option Swatch := do
  let color ← Color.ofText? text
  if color.alpha == 0 then none
  else
    let start := Document.localByte span.start q.base
    let stop := Document.localByte span.stop q.base
    let quote ← q.document.charAt? start
    if (quote = '"' || quote = '\'' || quote.toNat = 0x60) && start + 2 ≤ stop then
      some ⟨q.document.rangeOf (start + 1) (stop - 1), color⟩
    else none

/-- The swatch of an evaluation that is a text. -/
def ofEvaluation? (q : Query) : Evaluation → Option Swatch
  | .known (.string text) span => swatch? q text span
  | _ => none

/-- The swatches of a value: of a text, or of the texts in a list. -/
def ofValue (q : Query) : Evaluation → List Swatch
  | .known (.array items) _ => items.filterMap (ofEvaluation? q)
  | value => (ofEvaluation? q value).toList

/-- Whether an expression may stand for a color. -/
def mayHoldColor : Node → Bool
  | .string .. | .call .. | .array .. | .template .. => true
  | _ => false

/-- What a key's value is taken for. -/
inductive Reading
  /-- No color, and none below it. -/
  | foreign
  /-- No color itself. -/
  | nothing
  | expression (node : Node)

/-- Takes a value out of the call that makes it a color. Calls that make it a
value of another type hold no colors. -/
def readingOf (t : Tracker) (value : Node) : Reading :=
  match value with
  | .call _ callee arguments _ =>
      match t.resolveValueType? callee with
      | none => .expression value
      | some type =>
          if type ≠ "color" then .foreign
          else
            match arguments with
            | [] => .nothing
            | first :: _ =>
                .expression (if mayHoldColor first.expression then first.expression else value)
  | _ => if mayHoldColor value then .expression value else .nothing

/-- Whether a type name stands for the types of styles. -/
def isStyleType (t : Tracker) : Node → Bool
  | .identifier _ name _ =>
      match t.member? name with
      | some .styles | some .staticStyles => true
      | _ => false
  | .qualifiedName _ left right =>
      left.identifierName?.any t.isNamespace &&
        right.identifierName?.any fun name => name = "StyleXStyles" || name = "StaticStyles"
  | _ => false

/-- The swatch of a literal type. -/
def ofLiteralType (q : Query) (t : Tracker) : Node → List Swatch
  | .literalType _ literal =>
      match literal with
      | .string .. | .template .. => (ofEvaluation? q (t.evaluate literal)).toList
      | _ => []
  | _ => []

/-- The swatches of a type: of a literal, or of the literals in a union. -/
def ofType (q : Query) (t : Tracker) : Node → List Swatch
  | .unionType _ types => types.flatMap (ofLiteralType q t)
  | type => ofLiteralType q t type

/-- The swatches of the properties of an object type. -/
def ofParam (q : Query) (t : Tracker) : Node → List Swatch
  | .typeLiteral _ members => members.flatMap fun
      | .propertySignature _ _ (some (.declaredType _ annotated)) => ofType q t annotated
      | _ => []
  | _ => []

/-- The swatches of a style type's arguments. -/
def ofReference (q : Query) (t : Tracker) (name : Node) : Option Node → List Swatch
  | some (.typeArguments _ params) =>
      if isStyleType t name then params.flatMap (ofParam q t) else []
  | _ => []

/-- Looks at a node. The state is the style call around it. -/
def look (q : Query) (node : Node) (_parent : Option Node) (call : Option CallKind)
    (notes : Notes (List Swatch)) : Flow (Option CallKind) × Notes (List Swatch) :=
  let t := notes.tracker
  match node with
  | .call _ callee _ _ =>
      match styleCall? t callee with
      | some kind => (.replace (some kind), notes)
      | none => (.continue, notes)
  | .typeReference _ name params =>
      (.continue, { notes with found := notes.found ++ ofReference q t name params })
  | .pair .property _ value =>
      if call.isNone then (.continue, notes)
      else
        match readingOf t value with
        | .foreign => (.skip, notes)
        | .nothing => (.continue, notes)
        | .expression node =>
            (.continue, { notes with found := notes.found ++ ofValue q (t.evaluate node) })
  | _ => (.continue, notes)

/-- Order of swatches by where they start. -/
def startsNoLater (a b : Swatch) : Bool :=
  a.range.start.notAfter b.range.start

end Coloring

/-- The swatches of a document by where they start; none when the request is
called off. -/
def swatches? (document : Document) (tree : Node) (tracker : Tracker) (token : Token) :
    Except Failure (Option (List Swatch)) :=
  let q : Coloring.Query := ⟨document, spanBase document tree⟩
  let v := visitor token (fun _ => false) (Coloring.look q)
  let (outcome, notes) := v.walk tree none (.start tracker [])
  (notes.finish outcome).map fun found => found.map (·.mergeSort Coloring.startsNoLater)

end StyleSense.Assist
