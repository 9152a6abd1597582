/-
# The order of a walk

A walk whose hooks leave nothing out calls them once for each node: the two
early hooks in pre-order, the late one in post-order, and all of them nested as
the nodes are. The main statement reads this off the full log of hook calls,
which a visitor can be made to keep without any other effect on the walk.
-/

import Mathlib.Data.List.Basic
import StyleSense.Proofs.Tree.Walk

namespace StyleSense

/-- The hooks of a visitor. -/
inductive Hook
  | wildcard
  | enter
  | leave
  deriving DecidableEq, Repr

namespace Node

/-- The nodes of a tree, each before those below it. -/
def preorder (n : Node) : List Node :=
  n :: n.children.attach.flatMap fun c => preorder c.1.2
termination_by sizeOf n
decreasing_by exact sizeOf_lt_of_mem_children c.2

/-- The nodes of a tree, each after those below it. -/
def postorder (n : Node) : List Node :=
  (n.children.attach.flatMap fun c => postorder c.1.2) ++ [n]
termination_by sizeOf n
decreasing_by exact sizeOf_lt_of_mem_children c.2

/-- The hooks of a tree as brackets: `wildcard` and `enter` open a node, then
come the hooks of its children, one child after the other, and `leave` closes
it. -/
def brackets (n : Node) : List (Hook × Node) :=
  [(.wildcard, n), (.enter, n)] ++ (n.children.attach.flatMap fun c => brackets c.1.2) ++
    [(.leave, n)]
termination_by sizeOf n
decreasing_by exact sizeOf_lt_of_mem_children c.2

/-- The proofs of membership that a recursion needs leave no trace. -/
theorem flatMap_attach_children {β : Type} (n : Node) (f : Node → List β) :
    (n.children.attach.flatMap fun c => f c.1.2) = n.children.flatMap fun c => f c.2 := by
  rw [List.flatMap_subtype (g := fun c => f c.2) fun _ _ => rfl, List.unattach_attach]

theorem preorder_eq (n : Node) :
    n.preorder = n :: n.children.flatMap fun c => c.2.preorder := by
  rw [preorder, flatMap_attach_children]

theorem mem_preorder_self (n : Node) : n ∈ n.preorder := by
  rw [preorder_eq]
  exact List.mem_cons_self

theorem mem_preorder_of_child {n m : Node} {c : ChildRef × Node} (hc : c ∈ n.children)
    (hm : m ∈ c.2.preorder) : m ∈ n.preorder := by
  rw [preorder_eq]
  exact List.mem_cons_of_mem _ (List.mem_flatMap.2 ⟨c, hc, hm⟩)

/-- What holds of the root, and of the children of each node of which it holds,
holds of every node. -/
theorem forall_mem_preorder {P : Node → Prop} {root : Node} (hroot : P root)
    (hchild : ∀ n, P n → ∀ c ∈ n.children, P c.2) : ∀ n ∈ root.preorder, P n := by
  induction root using Node.induction with
  | step root ih =>
      intro n hn
      rw [preorder_eq] at hn
      rcases List.mem_cons.1 hn with rfl | hn
      · exact hroot
      · obtain ⟨c, hc, hn⟩ := List.mem_flatMap.1 hn
        exact ih c hc (hchild root hroot c hc) n hn

theorem postorder_eq (n : Node) :
    n.postorder = (n.children.flatMap fun c => c.2.postorder) ++ [n] := by
  rw [postorder, flatMap_attach_children]

theorem brackets_eq (n : Node) :
    n.brackets =
      [(.wildcard, n), (.enter, n)] ++ (n.children.flatMap fun c => c.2.brackets) ++
        [(.leave, n)] := by
  rw [brackets, flatMap_attach_children]

/-- The nodes that one hook is called with. -/
def nodesOf (hook : Hook) (log : List (Hook × Node)) : List Node :=
  (log.filter (·.1 = hook)).map (·.2)

theorem nodesOf_append (hook : Hook) (a b : List (Hook × Node)) :
    nodesOf hook (a ++ b) = nodesOf hook a ++ nodesOf hook b := by
  rw [nodesOf, List.filter_append, List.map_append]
  rfl

theorem nodesOf_flatMap {β : Type} (hook : Hook) (xs : List β) (f : β → List (Hook × Node)) :
    nodesOf hook (xs.flatMap f) = xs.flatMap fun x => nodesOf hook (f x) := by
  rw [nodesOf, List.filter_flatMap, List.map_flatMap]
  rfl

theorem nodesOf_wildcard_brackets (n : Node) : nodesOf .wildcard n.brackets = n.preorder := by
  induction n using Node.induction with
  | step n ih =>
      rw [brackets_eq, preorder_eq, nodesOf_append, nodesOf_append, nodesOf_flatMap,
        List.flatMap_congr ih]
      simp [nodesOf]

theorem nodesOf_enter_brackets (n : Node) : nodesOf .enter n.brackets = n.preorder := by
  induction n using Node.induction with
  | step n ih =>
      rw [brackets_eq, preorder_eq, nodesOf_append, nodesOf_append, nodesOf_flatMap,
        List.flatMap_congr ih]
      simp [nodesOf]

theorem nodesOf_leave_brackets (n : Node) : nodesOf .leave n.brackets = n.postorder := by
  induction n using Node.induction with
  | step n ih =>
      rw [brackets_eq, postorder_eq, nodesOf_append, nodesOf_append, nodesOf_flatMap,
        List.flatMap_congr ih]
      simp [nodesOf]

end Node

/-- Answers that go on with all children. -/
def Flow.Proceeds {α : Type} (flow : Flow α) : Prop :=
  flow = .continue ∨ ∃ state, flow = .replace state

namespace Visitor

variable {σ α : Type}

/-- One call of a hook, with what the hook is given. Only `enter` is given a
parent. -/
structure HookCall (α : Type) where
  hook : Hook
  node : Node
  parent : Option Node
  state : α

/-- The visitor that also writes down every call of its hooks. -/
def logged (v : Visitor σ α) : Visitor (σ × List (HookCall α)) α where
  wildcard node state memory :=
    let (flow, next) := v.wildcard node state memory.1
    (flow, next, memory.2 ++ [⟨.wildcard, node, none, state⟩])
  enter node parent state memory :=
    let (flow, next) := v.enter node parent state memory.1
    (flow, next, memory.2 ++ [⟨.enter, node, parent, state⟩])
  leave node state memory :=
    let (flow, next) := v.leave node state memory.1
    (flow, next, memory.2 ++ [⟨.leave, node, none, state⟩])
  canceled memory := v.canceled memory.1

/-- The calls of hooks in a walk. -/
def calls (v : Visitor σ α) (root : Node) (state : α) (memory : σ) : List (HookCall α) :=
  (v.logged.walk root state (memory, [])).2.2

/-- The hooks called, with their nodes. -/
def marks (log : List (HookCall α)) : List (Hook × Node) :=
  log.map fun call => (call.hook, call.node)

theorem marks_append (a b : List (HookCall α)) : marks (a ++ b) = marks a ++ marks b :=
  List.map_append

theorem before_logged (v : Visitor σ α) (node : Node) (parent : Option Node) (state : α)
    (memory : σ × List (HookCall α)) :
    (v.logged.before node parent state memory).1 = (v.before node parent state memory.1).1 ∧
      (v.logged.before node parent state memory).2.1 =
        (v.before node parent state memory.1).2 := by
  rcases hflow : v.wildcard node state memory.1 with ⟨flow, next⟩
  cases hstop : absorb state [] flow <;> simp [before, logged, hflow, hstop]

theorem after_logged (v : Visitor σ α) (node : Node) (state : α)
    (memory : σ × List (HookCall α)) :
    (v.logged.after node state memory).1 = (v.after node state memory.1).1 ∧
      (v.logged.after node state memory).2.1 = (v.after node state memory.1).2 := by
  rcases hflow : v.leave node state memory.1 with ⟨flow, next⟩
  cases flow <;> simp [after, logged, hflow]

/-- A visitor that keeps a log is in step with the one that does not. -/
theorem inStep_logged (v : Visitor σ α) :
    InStep Eq (fun (m : σ × List (HookCall α)) n => m.1 = n) (fun _ => True) v.logged v where
  live := by
    rintro m _ rfl
    rfl
  before := by
    rintro node parent state _ m _ - - rfl rfl
    obtain ⟨hstop, hnext⟩ := before_logged v node parent state m
    rw [hstop]
    exact ⟨.refl _, hnext⟩
  after := by
    rintro node state _ m _ - rfl rfl
    exact after_logged v node state m

/-- Keeping a log has no effect on a visit. -/
theorem visit_logged (v : Visitor σ α) (node : Node) (parent : Option Node) (state : α)
    (memory : σ × List (HookCall α)) :
    (v.logged.visit node parent state memory).1 = (v.visit node parent state memory.1).1 ∧
      (v.logged.visit node parent state memory).2.1 =
        (v.visit node parent state memory.1).2 :=
  (inStep_logged v).visit (fun _ _ _ _ => trivial) trivial (fun _ _ => trivial) rfl rfl

/-- Keeping a log has no effect on a walk. -/
theorem walk_logged (v : Visitor σ α) (root : Node) (state : α) (memory : σ) :
    (v.logged.walk root state (memory, [])).1 = (v.walk root state memory).1 :=
  congrArg Outcome.ofHalt (visit_logged v root none state (memory, [])).1

/-- A visitor that goes on at every node and is never called off. -/
structure Proceeds (v : Visitor σ α) : Prop where
  wildcard : ∀ node state memory, (v.wildcard node state memory).1.Proceeds
  enter : ∀ node parent state memory, (v.enter node parent state memory).1.Proceeds
  leave : ∀ node state memory, (v.leave node state memory).1 ≠ .exit
  live : ∀ memory, v.canceled memory = false

theorem absorb_of_proceeds {flow : Flow α} (h : flow.Proceeds) (state : α)
    (ignored : List ChildRef) : ∃ handed, absorb state ignored flow = .inr (handed, ignored) := by
  rcases h with rfl | ⟨next, rfl⟩
  · exact ⟨state, rfl⟩
  · exact ⟨next, rfl⟩

theorem before_of_proceeds {v : Visitor σ α} (hv : v.Proceeds) (node : Node)
    (parent : Option Node) (state : α) (memory : σ) (log : List (HookCall α)) :
    ∃ handed next entries,
      v.logged.before node parent state (memory, log) =
        (.inr (handed, []), next, log ++ entries) ∧
      marks entries = [(.wildcard, node), (.enter, node)] := by
  obtain ⟨middle, hmiddle⟩ := absorb_of_proceeds (hv.wildcard node state memory) state []
  obtain ⟨handed, hhanded⟩ := absorb_of_proceeds
    (hv.enter node parent middle (v.wildcard node state memory).2) middle []
  refine ⟨handed, (v.enter node parent middle (v.wildcard node state memory).2).2,
    [⟨.wildcard, node, none, state⟩, ⟨.enter, node, parent, middle⟩], ?_, rfl⟩
  simp [before, logged, hmiddle, hhanded]

theorem after_of_proceeds {v : Visitor σ α} (hv : v.Proceeds) (node : Node) (state : α)
    (memory : σ) (log : List (HookCall α)) :
    ∃ next, v.logged.after node state (memory, log) =
      (none, next, log ++ [⟨.leave, node, none, state⟩]) := by
  have hleave := hv.leave node state memory
  refine ⟨(v.leave node state memory).2, ?_⟩
  rcases hflow : v.leave node state memory with ⟨flow, next⟩
  rw [hflow] at hleave
  cases flow <;> simp_all [after, logged]

/-- What holds of each child's part of the log holds of the parts joined. -/
theorem runAll_brackets {v : Visitor σ α} {node : Node} {state : α}
    {cs : List (ChildRef × Node)}
    (hchild : ∀ c ∈ cs, ∀ memory log, ∃ next entries,
      v.logged.visit c.2 (some node) state (memory, log) = (none, next, log ++ entries) ∧
        marks entries = c.2.brackets)
    (memory : σ) (log : List (HookCall α)) :
    ∃ next entries,
      runAll (v.logged.visitChild node state []) cs (memory, log) =
        (none, next, log ++ entries) ∧
      marks entries = cs.flatMap fun c => c.2.brackets := by
  induction cs generalizing memory log with
  | nil => exact ⟨memory, [], by rw [List.append_nil]; rfl, rfl⟩
  | cons c cs ih =>
      obtain ⟨middle, first, hfirst, hmarks⟩ := hchild c List.mem_cons_self memory log
      obtain ⟨next, others, hothers, hmarks'⟩ :=
        ih (fun c hc => hchild c (List.mem_cons_of_mem _ hc)) middle (log ++ first)
      refine ⟨next, first ++ others, ?_, ?_⟩
      · rw [runAll_cons_of_none (f := v.logged.visitChild node state []) hfirst, hothers,
          List.append_assoc]
      · rw [marks_append, hmarks, hmarks', List.flatMap_cons]

/-- The log of a visit is the brackets of its tree. -/
theorem visit_brackets {v : Visitor σ α} (hv : v.Proceeds) (node : Node)
    (parent : Option Node) (state : α) (memory : σ) (log : List (HookCall α)) :
    ∃ next entries,
      v.logged.visit node parent state (memory, log) = (none, next, log ++ entries) ∧
        marks entries = node.brackets := by
  induction node using Node.induction generalizing parent state memory log with
  | step node ih =>
      obtain ⟨handed, opened, opening, hbefore, hopening⟩ :=
        before_of_proceeds hv node parent state memory log
      obtain ⟨below, inner, hloop, hinner⟩ :=
        runAll_brackets (fun c hc memory log => ih c hc (some node) handed memory log) opened
          (log ++ opening)
      obtain ⟨next, hafter⟩ := after_of_proceeds hv node handed below (log ++ opening ++ inner)
      refine ⟨next, opening ++ inner ++ [⟨.leave, node, none, handed⟩], ?_, ?_⟩
      · rw [visit_of_inr (v := v.logged) (m := (memory, log)) (hv.live memory) hbefore,
          visitBelow_of_none hloop, hafter]
        simp only [List.append_assoc]
      · rw [marks_append, marks_append, hopening, hinner, Node.brackets_eq]
        rfl

/-- A walk that leaves nothing out is completed and calls each early hook in
pre-order, the late one in post-order, and all of them as nested brackets. -/
theorem calls_of_proceeds {v : Visitor σ α} (hv : v.Proceeds) (root : Node) (state : α)
    (memory : σ) :
    (v.walk root state memory).1 = .completed ∧
      Node.nodesOf .wildcard (marks (v.calls root state memory)) = root.preorder ∧
      Node.nodesOf .enter (marks (v.calls root state memory)) = root.preorder ∧
      Node.nodesOf .leave (marks (v.calls root state memory)) = root.postorder ∧
      marks (v.calls root state memory) = root.brackets := by
  obtain ⟨next, entries, hvisit, hentries⟩ := visit_brackets hv root none state memory []
  have hcompleted : (v.walk root state memory).1 = .completed := by
    rw [← walk_logged, walk, hvisit]
    rfl
  have hmarks : marks (v.calls root state memory) = root.brackets := by
    rw [calls, walk, hvisit]
    exact hentries
  rw [hmarks]
  exact ⟨hcompleted, Node.nodesOf_wildcard_brackets root, Node.nodesOf_enter_brackets root,
    Node.nodesOf_leave_brackets root, rfl⟩

/-- A visitor that hands down the depth and remembers the greatest. -/
def depthGauge : Visitor Nat Nat where
  wildcard _ _ deepest := (.continue, deepest)
  enter _ _ depth deepest := (.replace (depth + 1), max depth deepest)
  leave _ _ deepest := (.skip, deepest)
  canceled _ := false

theorem depthGauge_proceeds : depthGauge.Proceeds where
  wildcard _ _ _ := .inl rfl
  enter _ _ depth _ := .inr ⟨depth + 1, rfl⟩
  leave _ _ _ := nofun
  live _ := rfl

/-- An array with a hole and a spread element: the hole is no node, and neither
are the dots. -/
theorem calls_of_proceeds_array :
    let dots : Span := ⟨2, 5⟩
    let items : Node := .array ⟨0, 9⟩ [none, some ⟨some dots, .null ⟨5, 9⟩⟩]
    depthGauge.Proceeds ∧ (depthGauge.walk items 0 0).1 = .completed ∧
      marks (depthGauge.calls items 0 0) =
        [(.wildcard, items), (.enter, items), (.wildcard, .null ⟨5, 9⟩),
          (.enter, .null ⟨5, 9⟩), (.leave, .null ⟨5, 9⟩), (.leave, items)] := by
  intro dots items
  obtain ⟨hcompleted, -, -, -, hmarks⟩ := calls_of_proceeds depthGauge_proceeds items 0 0
  have hnull : (Node.null ⟨5, 9⟩).brackets =
      [(.wildcard, .null ⟨5, 9⟩), (.enter, .null ⟨5, 9⟩), (.leave, .null ⟨5, 9⟩)] := by
    rw [Node.brackets_eq]
    rfl
  refine ⟨depthGauge_proceeds, hcompleted, ?_⟩
  rw [hmarks, Node.brackets_eq]
  simp only [items, Node.children, Node.elementChildren, List.map_cons, List.map_nil,
    Option.map_none, Option.map_some, Node.itemsFrom, List.flatMap_cons, List.flatMap_nil, hnull,
    List.append_nil, List.cons_append, List.nil_append]

end Visitor

end StyleSense
