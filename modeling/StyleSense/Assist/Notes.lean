/-
# Notes of an analysis

Every analysis walks a tree and keeps the same notes on the way: the names in
scope, and the style API as it was brought in. Modules, scripts and blocks have
a frame of their own, into which their constants go. What is found depends on
nothing that comes later in the file.

A request may be called off between any two nodes; a token says after how many
nodes it is.
-/

import StyleSense.Document
import StyleSense.Scope.Aliases
import StyleSense.Tree.Walk

namespace StyleSense.Assist

open StyleSense.Text

/-- Why an analysis has no answer. -/
inductive Failure
  /-- Frames and scopes do not match. -/
  | scope (error : ScopeError)
  /-- A text could not be cut. -/
  | cut (error : CutError)
  deriving DecidableEq, Repr

/-- Whether a request is called off once so many nodes have been visited. -/
abbrev Token := Nat → Bool

/-- A token that never fires. -/
def Token.never : Token := fun _ => false

/-- The token of a request that is called off before it starts. -/
def Token.fired : Token := fun _ => true

/-- What an analysis remembers. -/
structure Notes (β : Type) where
  tracker : Tracker
  failure : Option Failure
  /-- The number of nodes visited. -/
  visited : Nat
  /-- What the analysis is after. -/
  found : β

/-- Nodes with a frame of their own. -/
def opensFrame : Node → Bool
  | .program .. | .block .. => true
  | _ => false

/-- Nodes that no analysis leaves out, for what they hold concerns later
ones. -/
def alwaysVisited : Node → Bool
  | .program .. | .importFrom .. | .plain .exportDeclaration .. | .declaration ..
  | .declarator .. => true
  | _ => false

/-- The byte at which the document starts in the coordinates of its tree. -/
def spanBase (document : Document) (tree : Node) : UInt32 :=
  document.spanBase tree.span.start

/-- Binds the constants among some declarators. Only names with a known value
are bound. -/
def bindConstants (t : Tracker) : List Node → Except ScopeError Tracker
  | [] => .ok t
  | .declarator _ target (some init) :: rest =>
      match target.identifierName?, (t.evaluate init).value? with
      | some name, some value => do
          let t ← t.bind name value
          bindConstants t rest
      | _, _ => bindConstants t rest
  | _ :: rest => bindConstants t rest

/-- The style call that a callee makes. -/
def styleCall? (t : Tracker) (callee : Node) : Option CallKind :=
  (t.resolveCallee? callee).bind ApiMember.callKind?

/-- Children of style calls that hold no styles: the name of a theme call, and
the variables that a theme is for. -/
def unstyledChildren : CallKind → List ChildRef
  | .create | .keyframes => []
  | .createTheme => [.element .arguments 0, .whole .callee]
  | .defineVars => [.whole .callee]

namespace Notes

variable {α β : Type}

/-- Notes before a walk. -/
def start (tracker : Tracker) (found : β) : Notes β :=
  ⟨tracker, none, 0, found⟩

/-- Notes with the outcome of a scope operation; a failure ends the walk. -/
def settle (notes : Notes β) : Except ScopeError Tracker → Option (Flow α) × Notes β
  | .ok tracker => (none, { notes with tracker })
  | .error error => (some .exit, { notes with failure := some (.scope error) })

/-- Takes note of a node before its children. An answer means that the node is
done with. -/
def enter (notes : Notes β) : Node → Option (Flow α) × Notes β
  | .program .. | .block .. => (none, { notes with tracker := notes.tracker.push })
  | .declaration _ kind declarations =>
      if kind = "const" then notes.settle (bindConstants notes.tracker declarations)
      else (none, notes)
  | .declarator _ target init =>
      (none, { notes with tracker := notes.tracker.addRequire target init })
  | .importFrom _ specifiers source _ =>
      (some .skip, { notes with tracker := notes.tracker.addImport specifiers source })
  | .plain .withStatement .. => (some .skip, notes)
  | _ => (none, notes)

/-- Takes note of the end of a node. -/
def leave (notes : Notes β) (node : Node) : Flow α × Notes β :=
  if opensFrame node then
    match notes.settle notes.tracker.pop with
    | (some flow, notes) => (flow, notes)
    | (none, notes) => (.continue, notes)
  else (.continue, notes)

/-- The answer after a walk: none if it was called off. -/
def finish (notes : Notes β) (outcome : Outcome) : Except Failure (Option β) :=
  match notes.failure with
  | some failure => .error failure
  | none => .ok (if outcome = .canceled then none else some notes.found)

end Notes

/-- The visitor that takes notes and leaves out the nodes that `prunes` picks.
`look` is asked of every other node that its notes do not settle. -/
def visitor {α β : Type} (token : Token) (prunes : Node → Bool)
    (look : Node → Option Node → α → Notes β → Flow α × Notes β) : Visitor (Notes β) α where
  wildcard node _ notes :=
    (if !alwaysVisited node && prunes node then .skip else .continue,
      { notes with visited := notes.visited + 1 })
  enter node parent state notes :=
    match notes.enter node with
    | (some flow, notes) => (flow, notes)
    | (none, notes) => look node parent state notes
  leave node _ notes := notes.leave node
  canceled notes := token notes.visited

end StyleSense.Assist
