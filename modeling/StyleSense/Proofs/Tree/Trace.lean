/-
# Traces of a walk

A visitor can be made to write down each call of the hook before the children:
for which node, below which ancestors, and what it remembered at that time. The
ancestors are handed down beside the state. The walk is otherwise the same, so
what holds of the entries of a trace holds of the calls of a plain walk.
-/

import StyleSense.Proofs.Tree.Walk

namespace StyleSense

namespace Flow

variable {α β : Type}

/-- The answer with other states. -/
def map (f : α → β) : Flow α → Flow β
  | .continue => .continue
  | .skip => .skip
  | .replace state => .replace (f state)
  | .replaceIgnoring state ignored => .replaceIgnoring (f state) ignored
  | .exit => .exit

/-- The answer that says outright which state the children see. -/
def handing (state : α) : Flow α → Flow α
  | .continue => .replace state
  | flow => flow

end Flow

namespace Visitor

variable {σ α : Type}

/-- A call of the hook before the children. -/
structure Entry (σ : Type) where
  /-- The closest first. -/
  ancestors : List Node
  node : Node
  memory : σ

/-- The visitor that also keeps a trace. -/
def traced (v : Visitor σ α) : Visitor (σ × List (Entry σ)) (List Node × α) where
  wildcard node state memory :=
    let (flow, next) := v.wildcard node state.2 memory.1
    (flow.map (state.1, ·), next, memory.2)
  enter node parent state memory :=
    let (flow, next) := v.enter node parent state.2 memory.1
    ((flow.handing state.2).map (node :: state.1, ·), next,
      memory.2 ++ [⟨state.1, node, memory.1⟩])
  leave node state memory :=
    let (flow, next) := v.leave node state.2 memory.1
    (flow.map (state.1, ·), next, memory.2)
  canceled memory := v.canceled memory.1

/-- The calls of the hook before the children in a walk, in their order. -/
def entries (v : Visitor σ α) (root : Node) (state : α) (memory : σ) : List (Entry σ) :=
  (v.traced.walk root ([], state) (memory, [])).2.2

/-- A place in the trace, handed on with what the children are to see. -/
def handedBelow (ancestors : List Node) :
    Option Halt ⊕ (α × List ChildRef) → Option Halt ⊕ ((List Node × α) × List ChildRef)
  | .inl halt => .inl halt
  | .inr (state, ignored) => .inr ((ancestors, state), ignored)

theorem absorb_map (ancestors : List Node) (state : α) (ignored : List ChildRef) (flow : Flow α) :
    absorb (ancestors, state) ignored (flow.map (ancestors, ·)) =
      handedBelow ancestors (absorb state ignored flow) := by
  cases flow <;> rfl

theorem absorb_handing (above below : List Node) (state : α) (ignored : List ChildRef)
    (flow : Flow α) :
    absorb (above, state) ignored ((flow.handing state).map (below, ·)) =
      handedBelow below (absorb state ignored flow) := by
  cases flow <;> rfl

theorem before_traced (v : Visitor σ α) (node : Node) (parent : Option Node)
    (ancestors : List Node) (state : α) (memory : σ × List (Entry σ)) :
    (v.traced.before node parent (ancestors, state) memory).1 =
        handedBelow (node :: ancestors) (v.before node parent state memory.1).1 ∧
      (v.traced.before node parent (ancestors, state) memory).2.1 =
        (v.before node parent state memory.1).2 := by
  rcases hflow : v.wildcard node state memory.1 with ⟨flow, next⟩
  rcases hstop : absorb state [] flow with halt | ⟨handed, ignored⟩
  · simp [before, traced, hflow, absorb_map, hstop, handedBelow]
  · simp only [before, traced, hflow, absorb_map, hstop]
    exact ⟨absorb_handing ancestors (node :: ancestors) handed ignored _, rfl⟩

theorem after_traced (v : Visitor σ α) (node : Node) (ancestors : List Node) (state : α)
    (memory : σ × List (Entry σ)) :
    (v.traced.after node (ancestors, state) memory).1 = (v.after node state memory.1).1 ∧
      (v.traced.after node (ancestors, state) memory).2.1 =
        (v.after node state memory.1).2 := by
  rcases hflow : v.leave node state memory.1 with ⟨flow, next⟩
  cases flow <;> simp [after, traced, hflow, Flow.map]

/-- A visitor that keeps a trace is in step with the one that does not. -/
theorem inStep_traced (v : Visitor σ α) :
    InStep (fun (seen : List Node × α) state => seen.2 = state)
      (fun (m : σ × List (Entry σ)) n => m.1 = n) (fun _ => True) v.traced v where
  live := by
    rintro m _ rfl
    rfl
  before := by
    rintro node parent ⟨ancestors, state⟩ _ m _ - - rfl rfl
    obtain ⟨hstop, hnext⟩ := before_traced v node parent ancestors state m
    rw [hstop]
    refine ⟨?_, hnext⟩
    rcases (v.before node parent state m.1).1 with halt | ⟨handed, ignored⟩
    · exact .ended halt
    · apply StopsAlike.handed
      rfl
  after := by
    rintro node ⟨ancestors, state⟩ _ m _ - rfl rfl
    exact after_traced v node ancestors state m

/-- Keeping a trace has no effect on a visit. -/
theorem visit_traced (v : Visitor σ α) (node : Node) (parent : Option Node)
    (ancestors : List Node) (state : α) (memory : σ × List (Entry σ)) :
    (v.traced.visit node parent (ancestors, state) memory).1 =
        (v.visit node parent state memory.1).1 ∧
      (v.traced.visit node parent (ancestors, state) memory).2.1 =
        (v.visit node parent state memory.1).2 :=
  (inStep_traced v).visit (fun _ _ _ _ => trivial) trivial (fun _ _ => trivial) rfl rfl

/-- Keeping a trace has no effect on a walk. -/
theorem walk_traced (v : Visitor σ α) (root : Node) (state : α) (memory : σ) :
    (v.traced.walk root ([], state) (memory, [])).1 = (v.walk root state memory).1 ∧
      (v.traced.walk root ([], state) (memory, [])).2.1 = (v.walk root state memory).2 := by
  have hvisit := visit_traced v root none [] state (memory, [])
  exact ⟨congrArg Outcome.ofHalt hvisit.1, hvisit.2⟩

end Visitor

end StyleSense
