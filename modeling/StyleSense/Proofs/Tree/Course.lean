/-
# Courses of a visit

Which sequences of hook calls a visit can consist of, whatever the visitor
remembers: nothing if the walk was called off, one or two calls if a hook left
out the node or ended the walk, and otherwise the two early calls, the courses
of the children that are not left out, and perhaps the late call. Every visit
takes such a course (`course_visit`), so what is said of the calls of a walk is
proved by induction on courses, and the memory of the visitor plays no part.
-/

import StyleSense.Proofs.Tree.Steps

namespace StyleSense

namespace Flow

variable {α : Type}

/-- Answers that do not stop the node. -/
def GoesOn (flow : Flow α) : Prop :=
  flow ≠ .skip ∧ flow ≠ .exit

/-- The state that an answer puts in place. -/
def state? : Flow α → Option α
  | .replace state | .replaceIgnoring state _ => some state
  | _ => none

/-- The children that an answer leaves out. -/
def ignored : Flow α → List ChildRef
  | .replaceIgnoring _ ignored => ignored
  | _ => []

/-- The state after an answer to a hook that was given `state`. -/
def handed (flow : Flow α) (state : α) : α :=
  flow.state?.getD state

end Flow

namespace Visitor

variable {σ α : Type}

theorem absorb_of_goesOn {flow : Flow α} (h : flow.GoesOn) (state : α)
    (ignored : List ChildRef) :
    absorb state ignored flow = .inr (flow.handed state, ignored ++ flow.ignored) := by
  cases flow with
  | skip => exact absurd rfl h.1
  | exit => exact absurd rfl h.2
  | replaceIgnoring next more => rfl
  | «continue» => rw [Flow.ignored, List.append_nil]; rfl; nofun
  | replace next => rw [Flow.ignored, List.append_nil]; rfl; nofun

theorem goesOn_of_absorb_eq_inr {flow : Flow α} {state : α} {ignored : List ChildRef}
    {handed : α × List ChildRef} (h : absorb state ignored flow = .inr handed) :
    flow.GoesOn ∧ handed = (flow.handed state, ignored ++ flow.ignored) := by
  have hgoes : flow.GoesOn := by
    constructor <;> rintro rfl <;> cases h
  rw [absorb_of_goesOn hgoes] at h
  exact ⟨hgoes, (Sum.inr.inj h).symm⟩

theorem not_goesOn_of_absorb_eq_inl {flow : Flow α} {state : α} {ignored : List ChildRef}
    {halt : Option Halt} (h : absorb state ignored flow = .inl halt) : ¬flow.GoesOn := by
  intro hgoes
  rw [absorb_of_goesOn hgoes] at h
  cases h

namespace Event

/-- A call of `wildcard` on the visited node. -/
def wildcard (node : Node) (state : α) (answer : Flow α) : Event α :=
  { hook := .wildcard, node, parent := none, state, path := [], answer }

/-- A call of `enter` on the visited node. -/
def enter (node : Node) (parent : Option Node) (state : α) (answer : Flow α) : Event α :=
  { hook := .enter, node, parent, state, path := [], answer }

/-- A call of `leave` on the visited node. -/
def leave (node : Node) (state : α) (answer : Flow α) : Event α :=
  { hook := .leave, node, parent := none, state, path := [], answer }

end Event

/-- The calls on the children, by the index of the child. -/
def childEvents (n : Node) (logs : Nat → List (Event α)) : List (Event α) :=
  n.children.zipIdx.flatMap fun x => (logs x.2).map (·.below x.2)

/-- The calls that the visit of a node may consist of, and how it may end. A
child that is not reached makes no calls. -/
inductive Course : Node → Option Node → α → Option Halt → List (Event α) → Prop
  | canceled (n : Node) (parent : Option Node) (state : α) :
      Course n parent state (some .canceled) []
  | first {n : Node} {parent : Option Node} {state : α} {a : Flow α} (ha : ¬a.GoesOn) :
      Course n parent state a.halt? [.wildcard n state a]
  | second {n : Node} {parent : Option Node} {state : α} {a b : Flow α} (ha : a.GoesOn)
      (hb : ¬b.GoesOn) :
      Course n parent state b.halt? [.wildcard n state a, .enter n parent (a.handed state) b]
  | through {n : Node} {parent : Option Node} {state : α} {a b : Flow α} {halt : Option Halt}
      {halts : Nat → Option Halt} {logs : Nat → List (Event α)} (last : Option (Flow α))
      (ha : a.GoesOn) (hb : b.GoesOn)
      (hkept : ∀ x ∈ n.children.zipIdx, logs x.2 ≠ [] →
        (a.ignored ++ b.ignored).any (·.covers x.1.1) = false)
      (hcourse : ∀ x ∈ n.children.zipIdx, logs x.2 ≠ [] →
        Course x.1.2 (some n) (b.handed (a.handed state)) (halts x.2) (logs x.2))
      (hall : halt = none → ∀ x ∈ n.children.zipIdx,
        (a.ignored ++ b.ignored).any (·.covers x.1.1) = false →
          logs x.2 ≠ [] ∧ halts x.2 = none)
      (hlast : halt = none → last.isSome = true) :
      Course n parent state halt
        ([.wildcard n state a, .enter n parent (a.handed state) b] ++ childEvents n logs ++
          last.toList.map (.leave n (b.handed (a.handed state))))

/-- A visit to the end makes at least one call. -/
theorem Course.ne_nil {n : Node} {parent : Option Node} {state : α} {log : List (Event α)}
    (h : Course n parent state none log) : log ≠ [] := by
  intro hnil
  generalize hhalt : (none : Option Halt) = halt at h
  cases h with
  | canceled => cases hhalt
  | first => cases hnil
  | second => cases hnil
  | through => cases hnil

/-- The events of a visit. -/
def events (v : Visitor σ α) (node : Node) (parent : Option Node) (state : α) (memory : σ) :
    List (Event α) :=
  (v.steps node parent state memory).map (·.toEvent)

section

variable {v : Visitor σ α} {node : Node} {parent : Option Node} {state : α}
  {ignored : List ChildRef}

/-- The calls of a loop over some children, sorted by the index of the child. -/
structure Sorted (node : Node) (state : α) (ignored : List ChildRef)
    (xs : List ((ChildRef × Node) × Nat)) (halt : Option Halt) (events : List (Event α))
    (halts : Nat → Option Halt) (logs : Nat → List (Event α)) : Prop where
  events : events = xs.flatMap fun x => (logs x.2).map (·.below x.2)
  kept : ∀ x ∈ xs, logs x.2 ≠ [] → ignored.any (·.covers x.1.1) = false
  course : ∀ x ∈ xs, logs x.2 ≠ [] → Course x.1.2 (some node) state (halts x.2) (logs x.2)
  all : halt = none → ∀ x ∈ xs, ignored.any (·.covers x.1.1) = false →
    logs x.2 ≠ [] ∧ halts x.2 = none

/-- Where the loop ended before some children, they make no calls. -/
theorem Sorted.unreached (xs : List ((ChildRef × Node) × Nat)) (halt : Halt) :
    Sorted node state ignored xs (some halt) [] (fun _ => none) (fun _ => []) where
  events := by simp
  kept _ _ h := absurd rfl h
  course _ _ h := absurd rfl h
  all := nofun

/-- One more child before the others. -/
theorem Sorted.cons {x : (ChildRef × Node) × Nat} {xs : List ((ChildRef × Node) × Nat)}
    {halt : Option Halt} {halts : Nat → Option Halt} {log others : List (Event α)}
    {logs : Nat → List (Event α)} (ends : Option Halt)
    (h : Sorted node state ignored xs halt others halts logs) (hlater : ∀ y ∈ xs, y.2 ≠ x.2)
    (hkept : log ≠ [] → ignored.any (·.covers x.1.1) = false)
    (hcourse : log ≠ [] → Course x.1.2 (some node) state ends log)
    (hall : halt = none → ignored.any (·.covers x.1.1) = false → log ≠ [] ∧ ends = none) :
    Sorted node state ignored (x :: xs) halt (log.map (·.below x.2) ++ others)
      (Function.update halts x.2 ends) (Function.update logs x.2 log) where
  events := by
    rw [List.flatMap_cons, Function.update_self, h.events]
    congr 1
    exact List.flatMap_congr fun y hy => by rw [Function.update_of_ne (hlater y hy)]
  kept := by
    rw [List.forall_mem_cons, Function.update_self]
    refine ⟨hkept, fun y hy => ?_⟩
    rw [Function.update_of_ne (hlater y hy)]
    exact h.kept y hy
  course := by
    rw [List.forall_mem_cons, Function.update_self, Function.update_self]
    refine ⟨hcourse, fun y hy => ?_⟩
    rw [Function.update_of_ne (hlater y hy), Function.update_of_ne (hlater y hy)]
    exact h.course y hy
  all hhalt := by
    rw [List.forall_mem_cons, Function.update_self, Function.update_self]
    refine ⟨hall hhalt, fun y hy => ?_⟩
    rw [Function.update_of_ne (hlater y hy), Function.update_of_ne (hlater y hy)]
    exact h.all hhalt y hy

theorem exists_sorted (ignored : List ChildRef) (hchild : ∀ c ∈ node.children, ∀ m,
      Course c.2 (some node) state (v.visit c.2 (some node) state m).1
        (v.events c.2 (some node) state m)) {cs : List (ChildRef × Node)}
    (hcs : ∀ c ∈ cs, c ∈ node.children) (index : Nat) (m : σ) :
    ∃ halts logs, Sorted node state ignored (cs.zipIdx index)
      (v.childrenRun node state ignored (cs.zipIdx index) m).1
      ((v.childrenSteps node state ignored (cs.zipIdx index) m).map (·.toEvent)) halts logs := by
  induction cs generalizing index m with
  | nil => exact ⟨fun _ => none, fun _ => [], rfl, nofun, nofun, nofun⟩
  | cons c cs ih =>
      have hc := hchild c (hcs c List.mem_cons_self) m
      have hlater : ∀ y ∈ cs.zipIdx (index + 1), y.2 ≠ index :=
        fun y hy => Nat.ne_of_gt (List.le_snd_of_mem_zipIdx hy)
      rw [List.zipIdx_cons]
      rcases hrun : v.visitChild node state ignored c m with ⟨ends, next⟩
      -- what the visit of the first child adds to those of the others
      have hcons : ∀ {halt others halts logs},
          Sorted node state ignored (cs.zipIdx (index + 1)) halt others halts logs →
          (halt = none → ends = none) → ∃ halts logs,
            Sorted node state ignored ((c, index) :: cs.zipIdx (index + 1)) halt
              ((v.childSteps node state ignored (c, index) m).map (·.toEvent) ++ others)
              halts logs := by
        intro halt others halts logs h hhalt
        cases hcovers : ignored.any (·.covers c.1) with
        | true =>
            have hnone : v.childSteps node state ignored (c, index) m = [] := by
              rw [childSteps, if_pos hcovers]
            rw [hnone]
            refine ⟨_, _, h.cons (x := (c, index)) none hlater
              (fun h => absurd rfl h) (fun h => absurd rfl h) fun _ hkept => ?_⟩
            rw [hcovers] at hkept
            cases hkept
        | false =>
            have hevents : (v.childSteps node state ignored (c, index) m).map (·.toEvent) =
                (v.events c.2 (some node) state m).map (·.below index) := by
              rw [childSteps, if_neg (by rw [hcovers]; exact Bool.false_ne_true), events,
                List.map_map, List.map_map]
              rfl
            rw [visitChild, if_neg (by rw [hcovers]; exact Bool.false_ne_true)] at hrun
            rw [hrun] at hc
            rw [hevents]
            refine ⟨_, _, h.cons (x := (c, index)) ends hlater (fun _ => hcovers) (fun _ => hc)
              fun hnone _ => ?_⟩
            obtain rfl : ends = none := hhalt hnone
            exact ⟨hc.ne_nil, rfl⟩
      cases ends with
      | none =>
          obtain ⟨hend, hsteps⟩ := children_cons_of_none (x := (c, index)) hrun
            (cs.zipIdx (index + 1))
          obtain ⟨halts, logs, hothers⟩ :=
            ih (fun d hd => hcs d (List.mem_cons_of_mem _ hd)) (index + 1) next
          rw [hend, hsteps, List.map_append]
          exact hcons hothers fun _ => rfl
      | some halt =>
          obtain ⟨hend, hsteps⟩ := children_cons_of_some (x := (c, index)) hrun
            (cs.zipIdx (index + 1))
          rw [hend, hsteps, ← List.append_nil (List.map _ _)]
          exact hcons (.unreached _ halt) nofun

/-- The calls before the children. -/
theorem opening_events (v : Visitor σ α) (node : Node) (parent : Option Node) (state : α) (m : σ) :
    (∃ a : Flow α, ¬a.GoesOn ∧
        (v.opening node parent state m).map (·.toEvent) = [.wildcard node state a] ∧
        ∃ next, v.before node parent state m = (.inl a.halt?, next)) ∨
      ∃ a b : Flow α, a.GoesOn ∧
        (v.opening node parent state m).map (·.toEvent) =
          [.wildcard node state a, .enter node parent (a.handed state) b] ∧
        ∃ next, v.before node parent state m =
          (absorb (a.handed state) a.ignored b, next) := by
  rcases v.opening_cases node parent state m with
    ⟨halt, habsorb, hbefore, hopening⟩ | ⟨middle, others, habsorb, hbefore, hopening⟩
  · refine .inl ⟨(v.wildcardStep node state m).answer, not_goesOn_of_absorb_eq_inl habsorb,
      congrArg (List.map _) hopening, (v.wildcardStep node state m).next, ?_⟩
    rw [halt?_of_absorb_eq_inl habsorb]
    exact hbefore
  · obtain ⟨hgoes, heq⟩ := goesOn_of_absorb_eq_inr habsorb
    cases heq
    exact .inr ⟨(v.wildcardStep node state m).answer, _, hgoes,
      congrArg (List.map _) hopening, _, hbefore⟩

/-- A visit takes a course. -/
theorem course_visit (v : Visitor σ α) (node : Node) (parent : Option Node) (state : α) (m : σ) :
    Course node parent state (v.visit node parent state m).1
      (v.events node parent state m) := by
  induction node using Node.induction generalizing parent state m with
  | step node ih =>
      unfold events
      cases hlive : v.canceled m with
      | true =>
          rw [visit_of_canceled hlive, steps_of_canceled hlive]
          exact .canceled node parent state
      | false =>
          rcases v.opening_events node parent state m with
            ⟨a, ha, hopening, next, hbefore⟩ | ⟨a, b, ha, hopening, next, hbefore⟩
          · rw [visit_of_inl hlive hbefore, steps_of_inl hlive hbefore, hopening]
            exact .first ha
          · by_cases hb : b.GoesOn
            · rw [absorb_of_goesOn hb] at hbefore
              rw [visit_of_inr hlive hbefore, steps_of_inr hlive hbefore]
              obtain ⟨halts, logs, hlogs⟩ := exists_sorted (a.ignored ++ b.ignored)
                (fun c hc m => ih c hc (some node) (b.handed (a.handed state)) m)
                (fun c hc => hc) 0 next
              rw [childrenRun_zipIdx] at hlogs
              rw [List.map_append, List.map_append, hopening, hlogs.events]
              rcases hrun : runAll (v.visitChild node (b.handed (a.handed state))
                (a.ignored ++ b.ignored)) node.children next with ⟨- | halt, last⟩
              · rw [hrun] at hlogs
                rw [visitBelow_of_none hrun, after_eq, ← List.append_assoc]
                exact .through (some _) ha hb hlogs.kept hlogs.course
                  (fun _ => hlogs.all rfl) fun _ => rfl
              · rw [hrun] at hlogs
                rw [visitBelow_of_some hrun, ← List.append_assoc]
                exact .through none ha hb hlogs.kept hlogs.course nofun nofun
            · rcases hstop : absorb (a.handed state) a.ignored b with halt | handed
              · rw [hstop] at hbefore
                rw [visit_of_inl hlive hbefore, steps_of_inl hlive hbefore, hopening,
                  ← halt?_of_absorb_eq_inl hstop]
                exact .second ha hb
              · exact absurd (goesOn_of_absorb_eq_inr hstop).1 hb

end

end Visitor

end StyleSense
