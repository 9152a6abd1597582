/-
# Steps of a visit

A visit calls hooks, one after the other. Its steps are these calls in their
order, each with its place in the tree, what the hook was given, what it
answered, and what the visitor remembered before and after it. The steps do not
come from another walk: forgetting all but what each hook was given leaves the
log that the walk itself can be made to keep (`calls_eq_map_steps`).

Places are paths from the node that is visited, so that the steps below a child
are those of a visit of the child, moved down.
-/

import StyleSense.Proofs.Tree.Order

namespace StyleSense

/-- A place in a tree: which child to take at each node on the way down. -/
abbrev Path := List Nat

namespace Node

/-- The node at a path, if there is one. -/
def at? : Node → Path → Option Node
  | n, [] => some n
  | n, i :: path => n.children[i]?.bind fun c => c.2.at? path

theorem at?_cons {n : Node} {i : Nat} {c : ChildRef × Node} (h : n.children[i]? = some c)
    (path : Path) : n.at? (i :: path) = c.2.at? path := by
  rw [at?, h]
  rfl

theorem at?_append (n : Node) (above below : Path) :
    n.at? (above ++ below) = (n.at? above).bind (·.at? below) := by
  induction above generalizing n with
  | nil => rfl
  | cons i above ih =>
      rw [List.cons_append, at?, at?]
      cases n.children[i]? with
      | none => rfl
      | some c => exact ih c.2

end Node

/-- What an answer says of the rest of the walk. -/
def Flow.halt? {α : Type} : Flow α → Option Halt
  | .exit => some .exit
  | _ => none

namespace Visitor

variable {σ α β γ : Type}

/-- A call of a hook: what it was given, where, and what it answered. -/
structure Event (α : Type) extends HookCall α where
  path : Path
  answer : Flow α

/-- A call of a hook, with what the visitor remembers before and after it. -/
structure Step (σ α : Type) extends Event α where
  memory : σ
  next : σ

/-- The call as it is seen from the parent, of which the visited node is the
child with this index. -/
def Event.below (index : Nat) (e : Event α) : Event α :=
  { e with path := index :: e.path }

@[inherit_doc Event.below]
def Step.below (index : Nat) (s : Step σ α) : Step σ α :=
  { s with path := index :: s.path }

/-- The call of `wildcard`. -/
def wildcardStep (v : Visitor σ α) (node : Node) (state : α) (memory : σ) : Step σ α :=
  let (answer, next) := v.wildcard node state memory
  { hook := .wildcard, node, parent := none, state, path := [], answer, memory, next }

/-- The call of `enter`. -/
def enterStep (v : Visitor σ α) (node : Node) (parent : Option Node) (state : α) (memory : σ) :
    Step σ α :=
  let (answer, next) := v.enter node parent state memory
  { hook := .enter, node, parent, state, path := [], answer, memory, next }

/-- The call of `leave`. -/
def leaveStep (v : Visitor σ α) (node : Node) (state : α) (memory : σ) : Step σ α :=
  let (answer, next) := v.leave node state memory
  { hook := .leave, node, parent := none, state, path := [], answer, memory, next }

/-- The calls before the children. -/
def opening (v : Visitor σ α) (node : Node) (parent : Option Node) (state : α) (memory : σ) :
    List (Step σ α) :=
  let first := v.wildcardStep node state memory
  match absorb state [] first.answer with
  | .inl _ => [first]
  | .inr (state, _) => [first, v.enterStep node parent state first.next]

/-- What is written down in a loop, up to the step that halts. -/
def logAll (step : β → σ → Option Halt × σ) (log : β → σ → List γ) : List β → σ → List γ
  | [], _ => []
  | x :: rest, memory =>
      log x memory ++
        match step x memory with
        | (none, next) => logAll step log rest next
        | _ => []

/-- The calls in the visit of a node. -/
def steps (v : Visitor σ α) (node : Node) (parent : Option Node) (state : α) (memory : σ) :
    List (Step σ α) :=
  if v.canceled memory then []
  else
    v.opening node parent state memory ++
      match v.before node parent state memory with
      | (.inl _, _) => []
      | (.inr (state, ignored), memory) =>
          let log := fun (x : { x // x ∈ node.children.zipIdx }) memory =>
            if ignored.any (·.covers x.1.1.1) then []
            else (steps v x.1.1.2 (some node) state memory).map (·.below x.1.2)
          logAll (fun x => v.visitChild node state ignored x.1.1) log
              node.children.zipIdx.attach memory ++
            match runAll (v.visitChild node state ignored) node.children memory with
            | (none, memory) => [v.leaveStep node state memory]
            | _ => []
termination_by sizeOf node
decreasing_by exact Node.sizeOf_lt_of_mem_children (List.fst_mem_of_mem_zipIdx x.2)

/-- A log of a loop that carries proofs of membership along is the plain log. -/
theorem logAll_attachWith {p : β → Prop} (step : β → σ → Option Halt × σ) (log : β → σ → List γ)
    (xs : List β) (h : ∀ x ∈ xs, p x) (memory : σ) :
    logAll (fun x : { x // p x } => step x.1) (fun x => log x.1) (xs.attachWith p h) memory =
      logAll step log xs memory := by
  induction xs generalizing memory with
  | nil => rfl
  | cons x xs ih =>
      rw [List.attachWith_cons, logAll, logAll]
      rcases step x memory with ⟨- | halt, next⟩
      · exact congrArg (log x memory ++ ·) (ih (fun y hy => h y (List.mem_cons_of_mem _ hy)) next)
      · rfl

/-- The calls in the visit of one child, unless it is left out. -/
def childSteps (v : Visitor σ α) (node : Node) (state : α) (ignored : List ChildRef)
    (x : (ChildRef × Node) × Nat) (memory : σ) : List (Step σ α) :=
  if ignored.any (·.covers x.1.1) then []
  else (v.steps x.1.2 (some node) state memory).map (·.below x.2)

/-- The calls in the visits of some children. -/
def childrenSteps (v : Visitor σ α) (node : Node) (state : α) (ignored : List ChildRef)
    (xs : List ((ChildRef × Node) × Nat)) (memory : σ) : List (Step σ α) :=
  logAll (fun x => v.visitChild node state ignored x.1) (v.childSteps node state ignored) xs memory

/-- The visits of some children that remember their indices. -/
def childrenRun (v : Visitor σ α) (node : Node) (state : α) (ignored : List ChildRef)
    (xs : List ((ChildRef × Node) × Nat)) (memory : σ) : Option Halt × σ :=
  runAll (fun x => v.visitChild node state ignored x.1) xs memory

section

variable {v : Visitor σ α} {node : Node} {state : α} {ignored : List ChildRef}
  {x : (ChildRef × Node) × Nat} {memory next : σ}

theorem children_cons_of_none (h : v.visitChild node state ignored x.1 memory = (none, next))
    (xs : List ((ChildRef × Node) × Nat)) :
    v.childrenRun node state ignored (x :: xs) memory =
        v.childrenRun node state ignored xs next ∧
      v.childrenSteps node state ignored (x :: xs) memory =
        v.childSteps node state ignored x memory ++
          v.childrenSteps node state ignored xs next := by
  rw [childrenRun, runAll, childrenSteps, logAll, h]
  exact ⟨rfl, rfl⟩

theorem children_cons_of_some {halt : Halt}
    (h : v.visitChild node state ignored x.1 memory = (some halt, next))
    (xs : List ((ChildRef × Node) × Nat)) :
    v.childrenRun node state ignored (x :: xs) memory = (some halt, next) ∧
      v.childrenSteps node state ignored (x :: xs) memory =
        v.childSteps node state ignored x memory := by
  rw [childrenRun, runAll, childrenSteps, logAll, h]
  exact ⟨rfl, List.append_nil _⟩

end

/-- Children are told apart by their indices. -/
theorem pairwise_zipIdx (xs : List γ) : xs.zipIdx.Pairwise fun x y => x.2 ≠ y.2 := by
  have hindices : (xs.zipIdx.map Prod.snd).Nodup := by
    rw [List.zipIdx_map_snd]
    exact List.nodup_range' 1
  exact List.pairwise_map.1 hindices

/-- The indices have no effect on the visits. -/
theorem childrenRun_zipIdx (v : Visitor σ α) (node : Node) (state : α) (ignored : List ChildRef)
    (cs : List (ChildRef × Node)) (index : Nat) (memory : σ) :
    v.childrenRun node state ignored (cs.zipIdx index) memory =
      runAll (v.visitChild node state ignored) cs memory := by
  induction cs generalizing index memory with
  | nil => rfl
  | cons c cs ih =>
      rw [List.zipIdx_cons, runAll]
      rcases hrun : v.visitChild node state ignored c memory with ⟨- | halt, next⟩
      · exact (children_cons_of_none (x := (c, index)) hrun _).1.trans (ih (index + 1) next)
      · exact (children_cons_of_some (x := (c, index)) hrun _).1

/-- The call after the children, if the walk gets there. -/
def closing (v : Visitor σ α) (node : Node) (state : α) : Option Halt × σ → List (Step σ α)
  | (none, memory) => [v.leaveStep node state memory]
  | _ => []

theorem steps_eq (v : Visitor σ α) (node : Node) (parent : Option Node) (state : α)
    (memory : σ) :
    v.steps node parent state memory =
      if v.canceled memory then []
      else
        v.opening node parent state memory ++
          match v.before node parent state memory with
          | (.inl _, _) => []
          | (.inr (state, ignored), memory) =>
              v.childrenSteps node state ignored node.children.zipIdx memory ++
                v.closing node state
                  (runAll (v.visitChild node state ignored) node.children memory) := by
  rw [steps]
  by_cases hcanceled : v.canceled memory = true
  · rw [if_pos hcanceled, if_pos hcanceled]
  · rw [if_neg hcanceled, if_neg hcanceled]
    rcases v.before node parent state memory with ⟨halt | ⟨handed, ignored⟩, next⟩
    · rfl
    · have hlog := logAll_attachWith (fun x => v.visitChild node handed ignored x.1)
        (v.childSteps node handed ignored) node.children.zipIdx (fun x hx => hx) next
      simp only [childrenSteps, ← hlog]
      rfl

theorem steps_of_canceled {v : Visitor σ α} {memory : σ} (h : v.canceled memory = true)
    (node : Node) (parent : Option Node) (state : α) :
    v.steps node parent state memory = [] := by
  rw [steps_eq, if_pos h]

theorem steps_of_inl {v : Visitor σ α} {node : Node} {parent : Option Node} {state : α}
    {m next : σ} {halt : Option Halt} (hlive : v.canceled m = false)
    (h : v.before node parent state m = (.inl halt, next)) :
    v.steps node parent state m = v.opening node parent state m := by
  rw [steps_eq, hlive, h]
  exact List.append_nil _

theorem steps_of_inr {v : Visitor σ α} {node : Node} {parent : Option Node}
    {state handed : α} {m next : σ} {ignored : List ChildRef}
    (hlive : v.canceled m = false)
    (h : v.before node parent state m = (.inr (handed, ignored), next)) :
    v.steps node parent state m =
      v.opening node parent state m ++
        (v.childrenSteps node handed ignored node.children.zipIdx next ++
          v.closing node handed
            (runAll (v.visitChild node handed ignored) node.children next)) := by
  rw [steps_eq, hlive, h]
  rfl

/-- The call is one that the visitor makes: its hook gives this answer there. -/
def Makes (v : Visitor σ α) (s : Step σ α) : Prop :=
  (s.answer, s.next) =
    match s.hook with
    | .wildcard => v.wildcard s.node s.state s.memory
    | .enter => v.enter s.node s.parent s.state s.memory
    | .leave => v.leave s.node s.state s.memory

theorem halt?_of_absorb_eq_inl {state : α} {ignored : List ChildRef} {flow : Flow α}
    {halt : Option Halt} (h : absorb state ignored flow = .inl halt) : flow.halt? = halt := by
  cases flow <;> cases h <;> rfl

theorem halt?_of_absorb_eq_inr {state : α} {ignored : List ChildRef} {flow : Flow α}
    {handed : α × List ChildRef} (h : absorb state ignored flow = .inr handed) :
    flow.halt? = none := by
  cases flow <;> cases h <;> rfl

/-- Before the children either the first hook ends the visit, or the second one
is called with the state that the first put in place. -/
theorem opening_cases (v : Visitor σ α) (node : Node) (parent : Option Node) (state : α)
    (memory : σ) :
    (∃ halt, absorb state [] (v.wildcardStep node state memory).answer = .inl halt ∧
        v.before node parent state memory =
          (.inl halt, (v.wildcardStep node state memory).next) ∧
        v.opening node parent state memory = [v.wildcardStep node state memory]) ∨
      ∃ middle ignored,
        absorb state [] (v.wildcardStep node state memory).answer = .inr (middle, ignored) ∧
          let second := v.enterStep node parent middle (v.wildcardStep node state memory).next
          v.before node parent state memory =
              (absorb middle ignored second.answer, second.next) ∧
            v.opening node parent state memory =
              [v.wildcardStep node state memory, second] := by
  rcases hflow : v.wildcard node state memory with ⟨flow, next⟩
  have hfirst : v.wildcardStep node state memory =
      { hook := .wildcard, node, parent := none, state, path := [],
        answer := flow, memory, next } := by
    rw [wildcardStep, hflow]
  rw [hfirst]
  rcases hstop : absorb state [] flow with halt | ⟨middle, ignored⟩
  · exact .inl ⟨halt, rfl, by simp only [before, hflow, hstop],
      by simp only [opening, hfirst, hstop]⟩
  · refine .inr ⟨middle, ignored, rfl, ?_, by simp only [opening, hfirst, hstop]⟩
    simp only [before, hflow, hstop]
    rfl

theorem after_eq (v : Visitor σ α) (node : Node) (state : α) (memory : σ) :
    v.after node state memory =
      ((v.leaveStep node state memory).answer.halt?, (v.leaveStep node state memory).next) := by
  rcases hflow : v.leave node state memory with ⟨flow, next⟩
  cases flow <;> simp only [after, leaveStep, hflow, Flow.halt?]

/-- A property of runs, by the memory before, the end, the memory after and the
calls made. It holds of runs that make no call and of single calls, and it is
kept where runs are joined and where they are seen from further up. -/
structure Joins (v : Visitor σ α) (P : σ → Option Halt → σ → List (Step σ α) → Prop) :
    Prop where
  canceled : ∀ m, v.canceled m = true → P m (some .canceled) m []
  nil : ∀ m, P m none m []
  call : ∀ s, v.Makes s → (s.hook = .wildcard → v.canceled s.memory = false) →
    P s.memory s.answer.halt? s.next [s]
  append : ∀ {m middle next halt a b}, P m none middle a → P middle halt next b →
    P m halt next (a ++ b)
  below : ∀ {m next halt a} index, P m halt next a → P m halt next (a.map (·.below index))

section

variable {v : Visitor σ α} {P : σ → Option Halt → σ → List (Step σ α) → Prop}

theorem Joins.opening (h : v.Joins P) {node : Node} {parent : Option Node} {state : α}
    {m next : σ} {stop : Option Halt ⊕ (α × List ChildRef)} (hlive : v.canceled m = false)
    (hbefore : v.before node parent state m = (stop, next)) :
    P m (stop.elim id fun _ => none) next (v.opening node parent state m) := by
  have hfirst := h.call (v.wildcardStep node state m) rfl fun _ => hlive
  rcases v.opening_cases node parent state m with
    ⟨halt, habsorb, heq, hopening⟩ | ⟨middle, ignored, habsorb, heq, hopening⟩
  · rw [hbefore, Prod.mk.injEq] at heq
    obtain ⟨rfl, rfl⟩ := heq
    rw [halt?_of_absorb_eq_inl habsorb] at hfirst
    rw [hopening]
    exact hfirst
  · rw [halt?_of_absorb_eq_inr habsorb] at hfirst
    rw [hbefore, Prod.mk.injEq] at heq
    obtain ⟨rfl, rfl⟩ := heq
    have hsecond := h.call (v.enterStep node parent middle (v.wildcardStep node state m).next) rfl
      nofun
    rw [hopening]
    refine h.append (a := [_]) hfirst ?_
    rcases hstop : absorb middle ignored
      (v.enterStep node parent middle (v.wildcardStep node state m).next).answer with halt | handed
    · rwa [halt?_of_absorb_eq_inl hstop] at hsecond
    · rwa [halt?_of_absorb_eq_inr hstop] at hsecond

theorem Joins.children (h : v.Joins P) {node : Node} {state : α} (ignored : List ChildRef)
    {xs : List ((ChildRef × Node) × Nat)}
    (hchild : ∀ x ∈ xs, ∀ m, P m (v.visit x.1.2 (some node) state m).1
      (v.visit x.1.2 (some node) state m).2 (v.steps x.1.2 (some node) state m)) (m : σ) :
    P m (v.childrenRun node state ignored xs m).1 (v.childrenRun node state ignored xs m).2
      (v.childrenSteps node state ignored xs m) := by
  induction xs generalizing m with
  | nil => exact h.nil m
  | cons x xs ih =>
      have hx : P m (v.visitChild node state ignored x.1 m).1
          (v.visitChild node state ignored x.1 m).2 (v.childSteps node state ignored x m) := by
        unfold visitChild childSteps
        split
        · exact h.nil m
        · exact h.below x.2 (hchild x List.mem_cons_self m)
      rcases hrun : v.visitChild node state ignored x.1 m with ⟨- | halt, next⟩
      · rw [hrun] at hx
        obtain ⟨hend, hsteps⟩ := children_cons_of_none hrun xs
        rw [hend, hsteps]
        exact h.append hx (ih (fun y hy => hchild y (List.mem_cons_of_mem _ hy)) next)
      · rw [hrun] at hx
        obtain ⟨hend, hsteps⟩ := children_cons_of_some hrun xs
        rw [hend, hsteps]
        exact hx

/-- What holds of single calls, and is kept where runs are joined, holds of a
visit. -/
theorem Joins.visit (h : v.Joins P) (node : Node) (parent : Option Node) (state : α) (m : σ) :
    P m (v.visit node parent state m).1 (v.visit node parent state m).2
      (v.steps node parent state m) := by
  induction node using Node.induction generalizing parent state m with
  | step node ih =>
      cases hlive : v.canceled m with
      | true =>
          rw [visit_of_canceled hlive, steps_of_canceled hlive]
          exact h.canceled m hlive
      | false =>
          rcases hbefore : v.before node parent state m with ⟨halt | ⟨handed, ignored⟩, next⟩
          · rw [visit_of_inl hlive hbefore, steps_of_inl hlive hbefore]
            exact h.opening hlive hbefore
          · rw [visit_of_inr hlive hbefore, steps_of_inr hlive hbefore]
            refine h.append (h.opening hlive hbefore) ?_
            have hchildren := h.children ignored
              (fun x (hx : x ∈ node.children.zipIdx) m =>
                ih x.1 (List.fst_mem_of_mem_zipIdx hx) (some node) handed m) next
            rw [childrenRun_zipIdx] at hchildren
            rcases hrun : runAll (v.visitChild node handed ignored) node.children next with
              ⟨- | halt, last⟩
            · rw [hrun] at hchildren
              rw [visitBelow_of_none hrun, after_eq]
              exact h.append hchildren (h.call (v.leaveStep node handed last) rfl nofun)
            · rw [hrun] at hchildren
              rw [visitBelow_of_some hrun]
              rw [show v.closing node handed (some halt, last) = [] from rfl, List.append_nil]
              exact hchildren

end

/-- A call that answers `exit` ends the visit, and nothing else ends it so. -/
theorem exit_visit (v : Visitor σ α) (node : Node) (parent : Option Node) (state : α) (m : σ) :
    ((v.visit node parent state m).1 = some .exit ↔
        ∃ s ∈ v.steps node parent state m, s.answer = .exit) ∧
      ∀ earlier s later, v.steps node parent state m = earlier ++ s :: later →
        s.answer = .exit → later = [] := by
  refine Joins.visit (P := fun _ halt _ steps =>
    (halt = some .exit ↔ ∃ s ∈ steps, s.answer = .exit) ∧
      ∀ earlier s later, steps = earlier ++ s :: later → s.answer = .exit → later = [])
    ⟨?_, ?_, ?_, ?_, ?_⟩ node parent state m
  · intro m _
    exact ⟨⟨nofun, nofun⟩, by simp⟩
  · intro m
    exact ⟨⟨nofun, nofun⟩, by simp⟩
  · intro s _ _
    refine ⟨?_, fun earlier t later heq _ => ?_⟩
    · cases hanswer : s.answer <;> simp [Flow.halt?, hanswer]
    · exact (List.append_eq_singleton_iff.1 heq.symm).elim (by simp) (by simp)
  · intro m middle next halt a b ha hb
    have hnone : ∀ s ∈ a, s.answer ≠ .exit := by
      intro s hs hexit
      cases ha.1.2 ⟨s, hs, hexit⟩
    refine ⟨?_, fun earlier s later heq hexit => ?_⟩
    · rw [hb.1]
      constructor
      · rintro ⟨s, hs, hexit⟩
        exact ⟨s, List.mem_append_right a hs, hexit⟩
      · rintro ⟨s, hs, hexit⟩
        exact ⟨s, (List.mem_append.1 hs).resolve_left fun hs => hnone s hs hexit, hexit⟩
    · rcases List.append_eq_append_iff.1 heq with ⟨more, rfl, hb'⟩ | ⟨more, ha', hlater⟩
      · exact hb.2 more s later hb' hexit
      · cases more with
        | nil => exact hb.2 [] s later hlater.symm hexit
        | cons t more =>
            obtain ⟨rfl, -⟩ := List.cons.inj hlater
            exact absurd hexit (hnone s (ha' ▸ by simp))
  · intro m next halt a index ha
    refine ⟨?_, fun earlier s later heq hexit => ?_⟩
    · rw [ha.1]
      constructor
      · rintro ⟨s, hs, hexit⟩
        exact ⟨s.below index, List.mem_map_of_mem hs, hexit⟩
      · rintro ⟨s, hs, hexit⟩
        obtain ⟨t, ht, rfl⟩ := List.mem_map.1 hs
        exact ⟨t, ht, hexit⟩
    · obtain ⟨a₁, a₂, rfl, -, h₂⟩ := List.map_eq_append_iff.1 heq
      obtain ⟨t, rest, rfl, rfl, rfl⟩ := List.map_eq_cons_iff.1 h₂
      rw [ha.2 a₁ t rest rfl hexit]
      rfl

/-- A visit is called off only when the visitor says so. -/
theorem canceled_of_visit {v : Visitor σ α} {node : Node} {parent : Option Node} {state : α}
    {m : σ} (h : (v.visit node parent state m).1 = some .canceled) :
    v.canceled (v.visit node parent state m).2 = true := by
  refine Joins.visit (P := fun _ halt next _ => halt = some .canceled → v.canceled next = true)
    ⟨fun _ hcanceled _ => hcanceled, nofun, fun s _ _ hhalt => ?_, fun _ hb => hb,
      fun _ ha => ha⟩ node parent state m h
  cases hanswer : s.answer <;> rw [hanswer] at hhalt <;> cases hhalt

/-- A visit that no hook ends, with a visitor that never calls it off, comes to
its end. -/
theorem visit_eq_none {v : Visitor σ α} {node : Node} {parent : Option Node} {state : α} {m : σ}
    (hlive : ∀ m, v.canceled m = false)
    (hstays : ∀ s ∈ v.steps node parent state m, s.answer ≠ .exit) :
    (v.visit node parent state m).1 = none := by
  cases hend : (v.visit node parent state m).1 with
  | none => rfl
  | some halt =>
      cases halt with
      | exit =>
          obtain ⟨s, hs, hexit⟩ := (exit_visit v node parent state m).1.1 hend
          exact absurd hexit (hstays s hs)
      | canceled =>
          have hcanceled := canceled_of_visit hend
          rw [hlive] at hcanceled
          cases hcanceled

/-- The nodes that are entered, in the order of the calls. -/
def entered (log : List (Step σ α)) : List Node :=
  (log.filter (·.hook = .enter)).map (·.node)

theorem entered_append (a b : List (Step σ α)) : entered (a ++ b) = entered a ++ entered b := by
  rw [entered, List.filter_append, List.map_append]
  rfl

theorem entered_below (index : Nat) (log : List (Step σ α)) :
    entered (log.map (·.below index)) = entered log := by
  rw [entered, List.filter_map, List.map_map]
  rfl

theorem entered_opening (v : Visitor σ α) (node : Node) (parent : Option Node) (state : α)
    (m : σ) : (entered (v.opening node parent state m)).Sublist [node] := by
  rcases v.opening_cases node parent state m with
    ⟨halt, -, -, hopening⟩ | ⟨middle, -, -, -, hopening⟩
  · rw [hopening]
    exact List.nil_sublist _
  · rw [hopening]
    exact List.Sublist.refl _

theorem entered_closing (v : Visitor σ α) (node : Node) (state : α) (run : Option Halt × σ) :
    entered (v.closing node state run) = [] := by
  rcases run with ⟨- | halt, last⟩ <;> rfl

theorem entered_childrenSteps {v : Visitor σ α} {node : Node} {state : α} (ignored : List ChildRef)
    {xs : List ((ChildRef × Node) × Nat)}
    (hchild : ∀ x ∈ xs, ∀ m,
      (entered (v.steps x.1.2 (some node) state m)).Sublist x.1.2.preorder) (m : σ) :
    (entered (v.childrenSteps node state ignored xs m)).Sublist
      (xs.flatMap fun x => x.1.2.preorder) := by
  induction xs generalizing m with
  | nil => exact List.Sublist.refl _
  | cons x xs ih =>
      have hx : (entered (v.childSteps node state ignored x m)).Sublist x.1.2.preorder := by
        unfold childSteps
        split
        · exact List.nil_sublist _
        · rw [entered_below]
          exact hchild x List.mem_cons_self m
      rcases hrun : v.visitChild node state ignored x.1 m with ⟨- | halt, next⟩
      · rw [(children_cons_of_none hrun xs).2, entered_append]
        exact hx.append (ih (fun y hy => hchild y (List.mem_cons_of_mem _ hy)) next)
      · rw [(children_cons_of_some hrun xs).2]
        exact hx.trans (List.sublist_append_left _ _)

/-- Whatever its hooks answer, a visit enters nodes in pre-order, and none of
them more than once. -/
theorem entered_steps (v : Visitor σ α) (node : Node) (parent : Option Node) (state : α) (m : σ) :
    (entered (v.steps node parent state m)).Sublist node.preorder := by
  induction node using Node.induction generalizing parent state m with
  | step node ih =>
      have hopening := v.entered_opening node parent state m
      rw [Node.preorder_eq]
      cases hlive : v.canceled m with
      | true =>
          rw [steps_of_canceled hlive]
          exact List.nil_sublist _
      | false =>
          rcases hbefore : v.before node parent state m with ⟨halt | ⟨handed, ignored⟩, next⟩
          · rw [steps_of_inl hlive hbefore]
            exact hopening.trans (List.singleton_sublist.2 List.mem_cons_self)
          · have hchildren := entered_childrenSteps ignored
              (fun x (hx : x ∈ node.children.zipIdx) m =>
                ih x.1 (List.fst_mem_of_mem_zipIdx hx) (some node) handed m) next
            have hindices : (node.children.zipIdx.map Prod.fst).flatMap (fun c => c.2.preorder) =
                node.children.zipIdx.flatMap fun x => x.1.2.preorder := List.flatMap_map ..
            rw [← hindices, List.zipIdx_map_fst] at hchildren
            rw [steps_of_inr hlive hbefore, entered_append, entered_append, entered_closing,
              List.append_nil]
            exact hopening.append hchildren

theorem opening_logged (v : Visitor σ α) (node : Node) (parent : Option Node) (state : α)
    (memory : σ) (log : List (HookCall α)) :
    v.logged.before node parent state (memory, log) =
      ((v.before node parent state memory).1, (v.before node parent state memory).2,
        log ++ (v.opening node parent state memory).map (·.toHookCall)) := by
  rcases hflow : v.wildcard node state memory with ⟨flow, next⟩
  rcases hstop : absorb state [] flow with halt | ⟨middle, ignored⟩
  · simp [before, logged, opening, wildcardStep, hflow, hstop]
  · simp [before, logged, opening, wildcardStep, enterStep, hflow, hstop]

theorem leave_logged (v : Visitor σ α) (node : Node) (state : α) (memory : σ)
    (log : List (HookCall α)) :
    v.logged.after node state (memory, log) =
      ((v.after node state memory).1, (v.after node state memory).2,
        log ++ [(v.leaveStep node state memory).toHookCall]) := by
  rcases hflow : v.leave node state memory with ⟨flow, next⟩
  cases flow <;> simp [after, logged, leaveStep, hflow]

theorem children_logged {v : Visitor σ α} {node : Node} {state : α} (ignored : List ChildRef)
    {xs : List ((ChildRef × Node) × Nat)}
    (hchild : ∀ x ∈ xs, ∀ memory log,
      (v.logged.visit x.1.2 (some node) state (memory, log)).2.2 =
        log ++ (v.steps x.1.2 (some node) state memory).map (·.toHookCall))
    (memory : σ) (log : List (HookCall α)) :
    v.logged.childrenRun node state ignored xs (memory, log) =
      ((v.childrenRun node state ignored xs memory).1,
        (v.childrenRun node state ignored xs memory).2,
        log ++ (v.childrenSteps node state ignored xs memory).map (·.toHookCall)) := by
  induction xs generalizing memory log with
  | nil => simp [childrenRun, childrenSteps, runAll, logAll]
  | cons x xs ih =>
      have hx : v.logged.visitChild node state ignored x.1 (memory, log) =
          ((v.visitChild node state ignored x.1 memory).1,
            (v.visitChild node state ignored x.1 memory).2,
            log ++ (v.childSteps node state ignored x memory).map (·.toHookCall)) := by
        unfold visitChild childSteps
        split
        · simp
        · obtain ⟨hend, hnext⟩ := visit_logged v x.1.2 (some node) state (memory, log)
          rw [List.map_map]
          exact Prod.ext hend (Prod.ext hnext (hchild x List.mem_cons_self memory log))
      rcases hrun : v.visitChild node state ignored x.1 memory with ⟨- | halt, next⟩
      · rw [hrun] at hx
        obtain ⟨hend, hsteps⟩ := children_cons_of_none hrun xs
        rw [hend, hsteps, (children_cons_of_none hx xs).1,
          ih (fun y hy => hchild y (List.mem_cons_of_mem _ hy)), List.map_append,
          List.append_assoc]
      · rw [hrun] at hx
        obtain ⟨hend, hsteps⟩ := children_cons_of_some hrun xs
        rw [hend, hsteps, (children_cons_of_some hx xs).1]

/-- The steps of a visit are the calls that a visitor writes down itself. -/
theorem visit_logged_eq (v : Visitor σ α) (node : Node) (parent : Option Node) (state : α)
    (memory : σ) (log : List (HookCall α)) :
    (v.logged.visit node parent state (memory, log)).2.2 =
      log ++ (v.steps node parent state memory).map (·.toHookCall) := by
  induction node using Node.induction generalizing parent state memory log with
  | step node ih =>
      cases hlive : v.canceled memory with
      | true =>
          have hlogged : v.logged.canceled (memory, log) = true := hlive
          rw [visit_of_canceled hlogged, steps_of_canceled hlive]
          exact (List.append_nil log).symm
      | false =>
          have hlogged := opening_logged v node parent state memory log
          rcases hbefore : v.before node parent state memory with ⟨halt | ⟨handed, ignored⟩, next⟩
          · rw [hbefore] at hlogged
            rw [visit_of_inl (v := v.logged) (m := (memory, log)) hlive hlogged,
              steps_of_inl hlive hbefore]
          · rw [hbefore] at hlogged
            rw [visit_of_inr (v := v.logged) (m := (memory, log)) hlive hlogged,
              steps_of_inr hlive hbefore]
            have hchildren := children_logged ignored
              (fun x (hx : x ∈ node.children.zipIdx) =>
                ih x.1 (List.fst_mem_of_mem_zipIdx hx) (some node) handed) next
              (log ++ (v.opening node parent state memory).map (·.toHookCall))
            rw [childrenRun_zipIdx, childrenRun_zipIdx] at hchildren
            rcases hrun : runAll (v.visitChild node handed ignored) node.children next with
              ⟨- | halt, last⟩
            · rw [hrun] at hchildren
              rw [visitBelow_of_none hchildren, leave_logged]
              simp [closing]
            · rw [hrun] at hchildren
              rw [visitBelow_of_some hchildren]
              simp [closing]

/-- The steps of a walk are the calls of its hooks. -/
theorem calls_eq_map_steps (v : Visitor σ α) (root : Node) (state : α) (memory : σ) :
    v.calls root state memory = (v.steps root none state memory).map (·.toHookCall) :=
  visit_logged_eq v root none state memory []

end Visitor

end StyleSense
