/-
# Scopes

What the names of a file stand for while it is walked: frames of constants, the
innermost first, and the names under which the style API was brought in. Only
modules on a list bring it in; one name stands for it in any file.
-/

import StyleSense.Scope.Api
import StyleSense.Style.Name
import StyleSense.Tree.Node
import StyleSense.Value.Basic

namespace StyleSense

/-- Why a scope operation fails. -/
inductive ScopeError
  /-- There is no frame to leave. -/
  | underflow
  /-- There is no frame to bind a name in. -/
  | noActiveScope (name : String)
  deriving DecidableEq, Repr

/-- The wording of a scope error. -/
def ScopeError.message : ScopeError → String
  | underflow => "cannot pop a scope frame from an empty stack"
  | noActiveScope name => "cannot bind `" ++ name ++ "` without an active scope frame"

/-- Modules that export the style API unless others are named. -/
def defaultModules : List String :=
  ["@stylexjs/stylex", "stylex"]

/-- The name that stands for the style namespace without an import. -/
def defaultNamespace : String := "stylex"

/-- The names of a file. -/
structure Tracker where
  /-- Constants, the innermost frame first. -/
  frames : List (Dictionary Value)
  /-- Names of the style namespace. -/
  namespaces : List String
  /-- Names of its members. -/
  members : Dictionary ApiMember
  /-- Modules that export it. -/
  modules : List String

namespace Tracker

/-- No frames and no names but the default namespace. -/
def withModules (modules : List String) : Tracker :=
  ⟨[], [defaultNamespace], [], modules⟩

/-- A tracker for the default modules. -/
def new : Tracker :=
  withModules defaultModules

/-- Enters a frame. -/
def push (t : Tracker) : Tracker :=
  { t with frames := [] :: t.frames }

/-- Leaves the innermost frame. -/
def pop (t : Tracker) : Except ScopeError Tracker :=
  match t.frames with
  | [] => .error .underflow
  | _ :: outer => .ok { t with frames := outer }

/-- Binds a name in the innermost frame. -/
def bind (t : Tracker) (name : String) (value : Value) : Except ScopeError Tracker :=
  match t.frames with
  | [] => .error (.noActiveScope name)
  | frame :: outer => .ok { t with frames := Dictionary.put name value frame :: outer }

/-- The value of a name in the innermost frame that binds it. -/
def lookup? (t : Tracker) (name : String) : Option Value :=
  t.frames.findSome? (Dictionary.get? name)

/-- The number of frames. -/
def depth (t : Tracker) : Nat :=
  t.frames.length

/-- Whether a module exports the style API. -/
def acceptsModule (t : Tracker) (specifier : String) : Bool :=
  t.modules.contains specifier

/-- Adds a name of the namespace. -/
def addNamespace (t : Tracker) (name : String) : Tracker :=
  if t.namespaces.contains name then t else { t with namespaces := t.namespaces ++ [name] }

/-- Whether a name stands for the namespace. -/
def isNamespace (t : Tracker) (name : String) : Bool :=
  t.namespaces.contains name

/-- Adds `name` as a name of the member `imported`. -/
def addMember (t : Tracker) (name imported : String) : Tracker :=
  { t with members := Dictionary.put name (ApiMember.ofName imported) t.members }

/-- The member that a name stands for. -/
def member? (t : Tracker) (name : String) : Option ApiMember :=
  Dictionary.get? name t.members

/-- The member that an expression names: a name of its own, or a property of
the namespace. -/
def resolveCallee? (t : Tracker) : Node → Option ApiMember
  | .identifier _ name _ => t.member? name
  | .member _ object property =>
      match object.identifierName? with
      | some name =>
          if t.isNamespace name then property.identifierName?.map ApiMember.ofName else none
      | none => none
  | _ => none

/-- The dashed name of the value type that an expression constructs:
`types.lengthPercentage` constructs `length-percentage`. -/
def resolveValueType? (t : Tracker) : Node → Option String
  | .member _ object property =>
      match property.identifierName? with
      | none => none
      | some name =>
          let owner := match object with
            | .identifier _ owner _ => t.member? owner
            | .member .. => t.resolveCallee? object
            | _ => none
          if owner = some .types then some (Style.dashify name) else none
  | _ => none

end Tracker

end StyleSense
