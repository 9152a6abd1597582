/-
# Walking a tree

A visitor is asked three times about each node: before anything else, before
its children and after them. Each answer decides how the walk goes on. State is
handed down the tree: a child sees what its parent's hooks put in place and
never a sibling's. What the visitor itself remembers is threaded through the
walk in the order of the hooks. Before every node the visitor may also call the
walk off.
-/

import StyleSense.Tree.Subtree

namespace StyleSense

/-- The answer of a hook. -/
inductive Flow (α : Type)
  /-- Go on with the state received. -/
  | continue
  /-- Leave out this node: no children, no hook after them. -/
  | skip
  /-- Hand this state to the children instead. -/
  | replace (state : α)
  /-- Hand on this state, and leave out the listed children. -/
  | replaceIgnoring (state : α) (ignored : List ChildRef)
  /-- End the whole walk at once. -/
  | exit

/-- The hooks of a visitor. `σ` is what it remembers, `α` the state that is
handed down. -/
structure Visitor (σ α : Type) where
  /-- Asked first of every node. -/
  wildcard : Node → α → σ → Flow α × σ
  /-- Asked before the children, with the parent. -/
  enter : Node → Option Node → α → σ → Flow α × σ
  /-- Asked after the children, with the state they saw. Only `exit` has an
  effect here. -/
  leave : Node → α → σ → Flow α × σ
  /-- Whether the walk is called off. -/
  canceled : σ → Bool

/-- Why a walk ends early. -/
inductive Halt
  | exit
  | canceled
  deriving DecidableEq, Repr

/-- How a walk ends. -/
inductive Outcome
  | completed
  /-- A hook answered `exit`. -/
  | terminated
  /-- The walk was called off between two nodes. -/
  | canceled
  deriving DecidableEq, Repr

/-- The outcome of a walk that ended early, or did not. -/
def Outcome.ofHalt : Option Halt → Outcome
  | none => completed
  | some .exit => terminated
  | some .canceled => canceled

namespace Visitor

variable {σ α : Type}

/-- What an answer means for the node: stop here, perhaps with the whole walk,
or go on with a state and a list of children to leave out. -/
def absorb (state : α) (ignored : List ChildRef) : Flow α → Option Halt ⊕ (α × List ChildRef)
  | .continue => .inr (state, ignored)
  | .skip => .inl none
  | .exit => .inl (some .exit)
  | .replace next => .inr (next, ignored)
  | .replaceIgnoring next more => .inr (next, ignored ++ more)

/-- Runs steps until one halts. -/
def runAll {β : Type} (step : β → σ → Option Halt × σ) : List β → σ → Option Halt × σ
  | [], memory => (none, memory)
  | x :: rest, memory =>
      match step x memory with
      | (none, memory) => runAll step rest memory
      | halted => halted

/-- Asks the two hooks before the children. -/
def before (v : Visitor σ α) (node : Node) (parent : Option Node) (state : α) (memory : σ) :
    (Option Halt ⊕ (α × List ChildRef)) × σ :=
  let (flow, memory) := v.wildcard node state memory
  match absorb state [] flow with
  | .inl halt => (.inl halt, memory)
  | .inr (state, ignored) =>
      let (flow, memory) := v.enter node parent state memory
      (absorb state ignored flow, memory)

/-- Asks the hook after the children. -/
def after (v : Visitor σ α) (node : Node) (state : α) (memory : σ) : Option Halt × σ :=
  match v.leave node state memory with
  | (.exit, memory) => (some .exit, memory)
  | (_, memory) => (none, memory)

/-- Visits a node and everything below it. -/
def visit (v : Visitor σ α) (node : Node) (parent : Option Node) (state : α) (memory : σ) :
    Option Halt × σ :=
  if v.canceled memory then (some .canceled, memory)
  else
    match v.before node parent state memory with
    | (.inl halt, memory) => (halt, memory)
    | (.inr (state, ignored), memory) =>
        let step := fun (c : { c : ChildRef × Node // c ∈ node.children }) memory =>
          if ignored.any (·.covers c.1.1) then (none, memory)
          else visit v c.1.2 (some node) state memory
        match runAll step node.children.attach memory with
        | (none, memory) => v.after node state memory
        | halted => halted
termination_by sizeOf node
decreasing_by exact Node.sizeOf_lt_of_mem_children c.2

/-- Walks a whole tree. -/
def walk (v : Visitor σ α) (root : Node) (state : α) (memory : σ) : Outcome × σ :=
  let (halt, memory) := v.visit root none state memory
  (.ofHalt halt, memory)

end Visitor

end StyleSense
