/-
# Hover

Shows what the style key under the cursor compiles to. On the way down the walk
keeps where it is: in which call, for which variable, below which keys. Only
nodes around the cursor are looked into. The first key that the cursor touches
ends the walk, whether or not it has a preview.
-/

import StyleSense.Assist.Notes
import StyleSense.Style.Preview

namespace StyleSense.Assist

open StyleSense.Text StyleSense.Style

/-- A preview, and the key that it explains. -/
structure Hover where
  contents : String
  range : Range
  deriving DecidableEq, Repr

namespace Hover

/-- Where the walk is. -/
structure Place where
  call : Option CallKind
  /-- The variable that the enclosing call is assigned to. -/
  caller : Option String
  parents : List String
  valueType : Option String
  /-- The key whose value is the next style call. -/
  pendingCaller : Option String
  deriving Repr

/-- Outside of all calls. -/
def Place.outside : Place :=
  ⟨none, none, [], none, none⟩

/-- What a request is about. -/
structure Query where
  document : Document
  normalize : Normalization
  base : UInt32
  /-- The byte of the cursor. -/
  cursor : Nat

/-- Whether the cursor touches a span, its ends included. -/
def Query.touches (q : Query) (span : Span) : Bool :=
  Document.localByte span.start q.base ≤ q.cursor &&
    q.cursor ≤ Document.localByte span.stop q.base

/-- What a call hands down: a style call is a new place, a value type is kept
for what it wraps, and any other call holds no styles. -/
def enterCall (t : Tracker) (callee : Node) (parent : Option Node) (place : Place) : Flow Place :=
  match styleCall? t callee with
  | some kind =>
      let caller := match parent with
        | some (.declarator _ target _) => target.identifierName?
        | _ => place.pendingCaller
      .replaceIgnoring { place with call := some kind, caller, pendingCaller := none }
        (unstyledChildren kind)
  | none =>
      match t.resolveValueType? callee with
      | some valueType => .replace { place with valueType := some valueType }
      | none => .replace { place with call := none, caller := none, pendingCaller := none }

/-- A value taken out of the call that gives it a type. -/
inductive Unwrapped
  /-- The call wraps nothing. -/
  | empty
  /-- The value, and the type that it was given. -/
  | value (node : Node) (type : Option String)

/-- Takes a value out of the call that gives it a type, if there is one. -/
def unwrap (t : Tracker) (value : Node) : Unwrapped :=
  match value with
  | .call _ callee arguments _ =>
      match t.resolveValueType? callee with
      | none => .value value none
      | some type =>
          match arguments with
          | [] => .empty
          | first :: _ => .value first.expression (some type)
  | _ => .value value none

/-- Whether a value holds keys of its own. -/
def isNested : Node → Bool
  | .object .. | .plain .arrowFunctionExpression .. => true
  | _ => false

/-- Whether a value is a call that defines keyframes. -/
def isKeyframes (t : Tracker) : Node → Bool
  | .call _ callee _ _ => styleCall? t callee = some .keyframes
  | _ => false

/-- The preview of a key, where it has one. -/
def preview? (q : Query) (site : Site) (keySpan : Span) (value : Evaluation) : Option Hover :=
  (Style.preview? q.normalize site value).map fun preview =>
    ⟨preview.markdown, q.document.rangeOfSpan keySpan q.base⟩

/-- What a key hands down, or the answer when the cursor is on it. -/
def enterPair (q : Query) (key value : Node) (place : Place) (notes : Notes (Option Hover)) :
    Flow Place × Notes (Option Hover) :=
  let t := notes.tracker
  match place.call, t.propertyKey? key with
  | some call, some name =>
      match unwrap t value with
      | .empty => (.skip, notes)
      | .value inner type =>
          if isNested inner then
            (.replace { place with parents := place.parents ++ [name] }, notes)
          else if isKeyframes t value then
            (.replace ⟨some .keyframes, none, [], place.valueType, some name⟩, notes)
          else if q.touches key.span then
            let site : Site :=
              { call, caller := place.caller, parents := place.parents, key := name
                valueType := type.orElse fun _ => place.valueType }
            (.exit, { notes with found := preview? q site key.span (t.evaluate inner) })
          else (.continue, notes)
  | _, _ => (.continue, notes)

/-- Looks at a node. -/
def look (q : Query) (node : Node) (parent : Option Node) (place : Place)
    (notes : Notes (Option Hover)) : Flow Place × Notes (Option Hover) :=
  match node with
  | .call _ callee _ _ => (enterCall notes.tracker callee parent place, notes)
  | .pair .property key value => enterPair q key value place notes
  | _ => (.continue, notes)

end Hover

/-- The preview at a position; none where there is none, or when the request is
called off. -/
def hover? (document : Document) (tree : Node) (tracker : Tracker) (position : Position)
    (normalize : Normalization) (token : Token) : Except Failure (Option Hover) :=
  let q : Hover.Query :=
    ⟨document, normalize, spanBase document tree, document.byteOfPosition position⟩
  let v := visitor token (fun node => !q.touches node.span) (Hover.look q)
  let (outcome, notes) := v.walk tree Hover.Place.outside (.start tracker none)
  (notes.finish outcome).map Option.join

end StyleSense.Assist
