/-
# Walks that end early

A walk is called off between two nodes and ended by any hook. Up to where it
ends it is the walk that nobody calls off (`calm`): the two agree step by step,
and the next step that the other one makes is the first look at a node which is
thus the one that was not reached. Once called off, no node is begun, and only
nodes that were begun before are still left.
-/

import StyleSense.Proofs.Tree.Downward

namespace StyleSense

namespace Visitor

variable {σ α : Type}

/-- Each step starts from the memory that the one before it left. -/
def Threaded : σ → List (Step σ α) → σ → Prop
  | m, [], next => m = next
  | m, s :: rest, next => s.memory = m ∧ Threaded s.next rest next

theorem threaded_append {m next : σ} {a b : List (Step σ α)} :
    Threaded m (a ++ b) next ↔ ∃ middle, Threaded m a middle ∧ Threaded middle b next := by
  induction a generalizing m with
  | nil => simp [Threaded]
  | cons s a ih => simp only [List.cons_append, Threaded, ih, exists_and_left, and_assoc]

/-- What changes along some steps stays as it is up to one of them that changes it. -/
theorem Threaded.exists_first_ne {β : Type} (f : σ → β) {m next : σ} {steps : List (Step σ α)}
    (h : Threaded m steps next) (hne : f next ≠ f m) :
    ∃ earlier s later, steps = earlier ++ s :: later ∧ f s.memory = f m ∧
      f s.next ≠ f s.memory := by
  induction steps generalizing m with
  | nil => exact absurd (congrArg f (Eq.symm h)) hne
  | cons s steps ih =>
      obtain ⟨rfl, hrest⟩ := h
      by_cases hs : f s.next = f s.memory
      · obtain ⟨earlier, t, later, rfl, hkept, ht⟩ := ih hrest (hs ▸ hne)
        exact ⟨s :: earlier, t, later, rfl, hkept.trans hs, ht⟩
      · exact ⟨[], s, steps, rfl, rfl, hs⟩

/-- What changes along some steps is changed by one of them. -/
theorem Threaded.exists_ne {β : Type} (f : σ → β) {m next : σ} {steps : List (Step σ α)}
    (h : Threaded m steps next) (hne : f next ≠ f m) :
    ∃ earlier s later, steps = earlier ++ s :: later ∧ f s.next ≠ f s.memory := by
  have ⟨earlier, s, later, hsteps, _, hs⟩ := h.exists_first_ne f hne
  exact ⟨earlier, s, later, hsteps, hs⟩

/-- The steps of a visit are made by the visitor, one from the memory that the
one before it left, and a node is begun only if the visitor does not call the
walk off. -/
theorem threaded_visit (v : Visitor σ α) (node : Node) (parent : Option Node) (state : α)
    (m : σ) :
    Threaded m (v.steps node parent state m) (v.visit node parent state m).2 ∧
      ∀ s ∈ v.steps node parent state m,
        v.Makes s ∧ (s.hook = .wildcard → v.canceled s.memory = false) := by
  refine Joins.visit (P := fun m _ next steps => Threaded m steps next ∧
    ∀ s ∈ steps, v.Makes s ∧ (s.hook = .wildcard → v.canceled s.memory = false))
    ⟨fun m _ => ⟨rfl, nofun⟩, fun m => ⟨rfl, nofun⟩, ?_, ?_, ?_⟩ node parent state m
  · intro s hmakes hlive
    exact ⟨⟨rfl, rfl⟩, List.forall_mem_singleton.2 ⟨hmakes, hlive⟩⟩
  · intro m middle next halt a b ha hb
    exact ⟨threaded_append.2 ⟨middle, ha.1, hb.1⟩, List.forall_mem_append.2 ⟨ha.2, hb.2⟩⟩
  · intro m next halt a index ha
    refine ⟨?_, List.forall_mem_map.2 ha.2⟩
    replace ha := ha.1
    induction a generalizing m with
    | nil => exact ha
    | cons s a ih => exact ⟨ha.1, ih ha.2⟩

/-- What calls a walk off is not taken back: no hook of the visitor does. -/
structure Latches (v : Visitor σ α) : Prop where
  wildcard : ∀ node state m, v.canceled m = true → v.canceled (v.wildcard node state m).2 = true
  enter : ∀ node parent state m, v.canceled m = true →
    v.canceled (v.enter node parent state m).2 = true
  leave : ∀ node state m, v.canceled m = true → v.canceled (v.leave node state m).2 = true

theorem Latches.next {v : Visitor σ α} (h : v.Latches) {s : Step σ α} (hmakes : v.Makes s)
    (hcanceled : v.canceled s.memory = true) : v.canceled s.next = true := by
  have hnext := congrArg Prod.snd hmakes
  cases hhook : s.hook <;> rw [hhook] at hnext <;> rw [show s.next = _ from hnext]
  · exact h.wildcard s.node s.state s.memory hcanceled
  · exact h.enter s.node s.parent s.state s.memory hcanceled
  · exact h.leave s.node s.state s.memory hcanceled

/-- Once a walk is called off, each step starts with the walk called off. -/
theorem Latches.threaded {v : Visitor σ α} (h : v.Latches) {m next : σ} {steps : List (Step σ α)}
    (hthreaded : Threaded m steps next) (hmakes : ∀ s ∈ steps, v.Makes s)
    (hcanceled : v.canceled m = true) : ∀ s ∈ steps, v.canceled s.memory = true := by
  induction steps generalizing m with
  | nil => exact nofun
  | cons s steps ih =>
      obtain ⟨rfl, hthreaded⟩ := hthreaded
      refine List.forall_mem_cons.2 ⟨hcanceled, ih hthreaded
        (fun t ht => hmakes t (List.mem_cons_of_mem _ ht)) ?_⟩
      exact h.next (hmakes s List.mem_cons_self) hcanceled

/-- The same visitor with nobody to call the walk off. -/
def calm (v : Visitor σ α) : Visitor σ α :=
  { v with canceled := fun _ => false }

/-- How a run and the same run with nobody to call it off are related: they are
the same, or the first was called off where the second goes on to begin a node. -/
def Cut (run calm : Option Halt × σ) (steps calmSteps : List (Step σ α)) : Prop :=
  run.1 ≠ some .canceled ∧ calm = run ∧ calmSteps = steps ∨
    run.1 = some .canceled ∧
      ∃ d rest, calmSteps = steps ++ d :: rest ∧ d.hook = .wildcard

theorem Cut.append {run calm : Option Halt × σ} {steps calmSteps : List (Step σ α)}
    (h : Cut run calm steps calmSteps) (early : List (Step σ α)) :
    Cut run calm (early ++ steps) (early ++ calmSteps) := by
  rcases h with ⟨hlive, hrun, rfl⟩ | ⟨hend, d, rest, rfl, hd⟩
  · exact .inl ⟨hlive, hrun, rfl⟩
  · exact .inr ⟨hend, d, rest, (List.append_assoc early steps _).symm, hd⟩

/-- A hook does not call the walk off. -/
theorem halt?_ne_canceled (flow : Flow α) : flow.halt? ≠ some .canceled := by
  cases flow <;> nofun

theorem before_ne_canceled {v : Visitor σ α} {node : Node} {parent : Option Node} {state : α}
    {m next : σ} {halt : Option Halt} (h : v.before node parent state m = (.inl halt, next)) :
    halt ≠ some .canceled := by
  rcases v.opening_cases node parent state m with
    ⟨halt', habsorb, heq, -⟩ | ⟨middle, ignored, -, heq, -⟩
  · rw [h, Prod.mk.injEq, Sum.inl.injEq] at heq
    rw [heq.1, ← halt?_of_absorb_eq_inl habsorb]
    exact halt?_ne_canceled _
  · rw [h, Prod.mk.injEq] at heq
    rw [← halt?_of_absorb_eq_inl heq.1.symm]
    exact halt?_ne_canceled _

theorem steps_eq_cons {v : Visitor σ α} {m : σ} (hlive : v.canceled m = false) (node : Node)
    (parent : Option Node) (state : α) :
    ∃ rest, v.steps node parent state m = v.wildcardStep node state m :: rest := by
  rw [steps_eq, hlive]
  rcases v.opening_cases node parent state m with
    ⟨halt, -, -, hopening⟩ | ⟨middle, ignored, -, -, hopening⟩ <;>
  · rw [hopening]
    exact ⟨_, rfl⟩

theorem childrenSteps_cons (v : Visitor σ α) (node : Node) (state : α) (ignored : List ChildRef)
    (x : (ChildRef × Node) × Nat) (xs : List ((ChildRef × Node) × Nat)) (m : σ) :
    ∃ more, v.childrenSteps node state ignored (x :: xs) m =
      v.childSteps node state ignored x m ++ more :=
  ⟨_, rfl⟩

theorem cut_children {v : Visitor σ α} {node : Node} {state : α} (ignored : List ChildRef)
    {xs : List ((ChildRef × Node) × Nat)}
    (hchild : ∀ x ∈ xs, ∀ m,
      Cut (v.visit x.1.2 (some node) state m) (v.calm.visit x.1.2 (some node) state m)
        (v.steps x.1.2 (some node) state m) (v.calm.steps x.1.2 (some node) state m)) (m : σ) :
    Cut (v.childrenRun node state ignored xs m) (v.calm.childrenRun node state ignored xs m)
      (v.childrenSteps node state ignored xs m)
      (v.calm.childrenSteps node state ignored xs m) := by
  induction xs generalizing m with
  | nil => exact .inl ⟨nofun, rfl, rfl⟩
  | cons x xs ih =>
      have hx : Cut (v.visitChild node state ignored x.1 m)
          (v.calm.visitChild node state ignored x.1 m) (v.childSteps node state ignored x m)
          (v.calm.childSteps node state ignored x m) := by
        unfold visitChild childSteps
        split
        · exact .inl ⟨nofun, rfl, rfl⟩
        · rcases hchild x List.mem_cons_self m with
            ⟨hlive, hrun, hsteps⟩ | ⟨hend, d, rest, hsteps, hd⟩
          · exact .inl ⟨hlive, hrun, congrArg _ hsteps⟩
          · exact .inr ⟨hend, d.below x.2, rest.map (·.below x.2),
              by rw [hsteps, List.map_append, List.map_cons], hd⟩
      rcases hrun : v.visitChild node state ignored x.1 m with ⟨- | halt, next⟩
      · obtain ⟨hend, hsteps⟩ := children_cons_of_none hrun xs
        rw [hrun] at hx
        obtain ⟨-, hcalm, hsame⟩ := hx.resolve_right fun h => nomatch h.1
        obtain ⟨hend', hsteps'⟩ := children_cons_of_none hcalm xs
        rw [hend, hsteps, hend', hsteps', hsame]
        exact (ih (fun y hy => hchild y (List.mem_cons_of_mem _ hy)) next).append _
      · obtain ⟨hend, hsteps⟩ := children_cons_of_some hrun xs
        rw [hrun] at hx
        rw [hend, hsteps]
        rcases hx with ⟨hlive, hcalm, hsame⟩ | ⟨hcanceled, d, rest, hlonger, hd⟩
        · obtain ⟨hend', hsteps'⟩ := children_cons_of_some hcalm xs
          rw [hend', hsteps', hsame]
          exact .inl ⟨hlive, rfl, rfl⟩
        · obtain ⟨more, hmore⟩ := v.calm.childrenSteps_cons node state ignored x xs m
          rw [hmore, hlonger, List.append_assoc]
          exact .inr ⟨hcanceled, d, rest ++ more, rfl, hd⟩

/-- A visit that is called off is the beginning of the visit that is not. -/
theorem cut_visit (v : Visitor σ α) (node : Node) (parent : Option Node) (state : α) (m : σ) :
    Cut (v.visit node parent state m) (v.calm.visit node parent state m)
      (v.steps node parent state m) (v.calm.steps node parent state m) := by
  induction node using Node.induction generalizing parent state m with
  | step node ih =>
      cases hlive : v.canceled m with
      | true =>
          obtain ⟨rest, hrest⟩ := steps_eq_cons (v := v.calm) (m := m) rfl node parent state
          rw [visit_of_canceled hlive, steps_of_canceled hlive, hrest]
          exact .inr ⟨rfl, _, rest, rfl, rfl⟩
      | false =>
          rcases hbefore : v.before node parent state m with ⟨halt | ⟨handed, ignored⟩, next⟩
          · rw [visit_of_inl hlive hbefore, steps_of_inl hlive hbefore,
              visit_of_inl (v := v.calm) rfl hbefore, steps_of_inl (v := v.calm) rfl hbefore]
            exact .inl ⟨before_ne_canceled hbefore, rfl, rfl⟩
          · rw [visit_of_inr hlive hbefore, steps_of_inr hlive hbefore,
              visit_of_inr (v := v.calm) rfl hbefore, steps_of_inr (v := v.calm) rfl hbefore]
            refine Cut.append ?_ _
            have hchildren := cut_children ignored
              (fun x (hx : x ∈ node.children.zipIdx) =>
                ih x.1 (List.fst_mem_of_mem_zipIdx hx) (some node) handed) next
            rw [childrenRun_zipIdx, childrenRun_zipIdx] at hchildren
            rcases hrun : runAll (v.visitChild node handed ignored) node.children next with
              ⟨- | halt, last⟩
            · rw [hrun] at hchildren
              obtain ⟨-, hcalm, hsame⟩ := hchildren.resolve_right fun h => nomatch h.1
              rw [visitBelow_of_none hrun, visitBelow_of_none hcalm, hcalm, hsame]
              refine .inl ⟨?_, rfl, rfl⟩
              rw [after_eq]
              exact halt?_ne_canceled _
            · rw [hrun] at hchildren
              rw [visitBelow_of_some hrun]
              rcases hchildren with ⟨hends, hcalm, hsame⟩ | ⟨hcanceled, d, rest, hlonger, hd⟩
              · rw [visitBelow_of_some hcalm, hcalm, hsame]
                exact .inl ⟨hends, rfl, rfl⟩
              · rw [hlonger, List.append_assoc]
                exact .inr ⟨hcanceled, d, _, congrArg (· ++ _) (List.append_nil _).symm, hd⟩

/-- Which hook is called, and where. -/
def Event.key (e : Event α) : Hook × Path := (e.hook, e.path)

theorem pairwise_childEvents (n : Node) (logs : Nat → List (Event α))
    (h : ∀ x ∈ n.children.zipIdx, (logs x.2).Pairwise (·.key ≠ ·.key)) :
    (childEvents n logs).Pairwise (·.key ≠ ·.key) := by
  rw [childEvents, List.pairwise_flatMap]
  constructor
  · intro x hx
    rw [List.pairwise_map]
    refine (h x hx).imp fun {e f} hne heq => hne ?_
    rw [Event.key, Event.key, Prod.mk.injEq] at heq ⊢
    exact ⟨heq.1, (List.cons.inj heq.2).2⟩
  · refine (pairwise_zipIdx n.children).imp ?_
    intro x y hne e he f hf heq
    obtain ⟨e, -, rfl⟩ := List.mem_map.1 he
    obtain ⟨f, -, rfl⟩ := List.mem_map.1 hf
    exact hne (List.cons.inj (congrArg Prod.snd heq)).1

/-- No hook is called twice at a place. -/
theorem Course.pairwise_key {n : Node} {parent : Option Node} {state : α} {halt : Option Halt}
    {log : List (Event α)} (h : Course n parent state halt log) :
    log.Pairwise (·.key ≠ ·.key) := by
  induction h with
  | canceled => exact .nil
  | first => exact List.pairwise_singleton _ _
  | second => simp [Event.key, Event.wildcard, Event.enter]
  | @through n parent state a b halt halts logs last ha hb hkept hcourse hall hlast ih =>
      have hbelow := pairwise_childEvents n logs fun x hx => by
        by_cases hnil : logs x.2 = []
        · rw [hnil]
          exact .nil
        · exact ih x hx hnil
      have hpath : ∀ e ∈ childEvents n logs, e.path ≠ [] := fun e he =>
        path_ne_nil_of_mem_childEvents he
      rw [List.pairwise_append, List.pairwise_append]
      refine ⟨⟨by simp [Event.key, Event.wildcard, Event.enter], hbelow, ?_⟩, ?_, ?_⟩
      · intro e he f hf heq
        rcases List.mem_pair.1 he with rfl | rfl <;>
          exact hpath f hf (congrArg Prod.snd heq).symm
      · cases last with
        | none => exact .nil
        | some c => exact List.pairwise_singleton _ _
      · intro e he f hf heq
        obtain ⟨c, -, rfl⟩ := List.mem_map.1 hf
        rcases List.mem_append.1 he with he | he
        · rcases List.mem_pair.1 he with rfl | rfl <;> cases congrArg Prod.fst heq
        · exact hpath e he (congrArg Prod.snd heq)

/-- A node is begun before any other hook is called on it. -/
theorem Course.begun {n : Node} {parent : Option Node} {state : α} {halt : Option Halt}
    {log : List (Event α)} (h : Course n parent state halt log) {e : Event α} (he : e ∈ log) :
    ∃ flow, Answered log .wildcard e.path flow := by
  have hne := List.ne_nil_of_mem (local_mem_under he)
  obtain ⟨c, above, received, ends, -, -, hcourse, -⟩ := h.course_under hne
  have hfirst : ∃ flow, Answered (under e.path log) .wildcard [] flow := by
    generalize under e.path log = log at hne hcourse
    cases hcourse with
    | canceled => exact absurd rfl hne
    | first => exact ⟨_, _, List.mem_cons_self, rfl, rfl, rfl⟩
    | second => exact ⟨_, _, List.mem_cons_self, rfl, rfl, rfl⟩
    | through => exact ⟨_, _, List.mem_cons_self, rfl, rfl, rfl⟩
  exact hfirst.imp fun flow => (answered_under e.path).1

section

variable {v : Visitor σ α} {root : Node} {state : α} {memory : σ}

/-- A walk that was called off would go on, if nobody called it off, with a node
that no answer leaves out and that was not begun. -/
theorem exists_next (h : (v.visit root none state memory).1 = some .canceled) :
    ∃ d rest, v.calm.steps root none state memory =
        v.steps root none state memory ++ d :: rest ∧
      d.hook = .wildcard ∧ root.at? d.path = some d.node ∧
      ¬Suppressed (v.events root none state memory) d.path ∧
      ∀ s ∈ v.steps root none state memory, s.hook = .wildcard → s.path ≠ d.path := by
  obtain ⟨-, d, rest, hsteps, hd⟩ :=
    (cut_visit v root none state memory).resolve_left fun hlive => hlive.1 h
  have hcalm := course_visit v.calm root none state memory
  rw [events, hsteps, List.map_append, List.map_cons] at hcalm
  have hmem : d.toEvent ∈ v.events root none state memory ++
      d.toEvent :: rest.map (·.toEvent) := List.mem_append_right _ List.mem_cons_self
  refine ⟨d, rest, hsteps, hd, hcalm.node_eq hmem, ?_, ?_⟩
  · rintro ⟨above, index, below, hpath, e, he, habove, hsuppresses⟩
    exact hcalm.not_suppressed hmem
      ⟨above, index, below, hpath, e, List.mem_append_left _ he, habove, hsuppresses⟩
  · intro s hs hhook hpath
    have hne := (List.pairwise_append.1 hcalm.pairwise_key).2.2 s.toEvent
      (List.mem_map_of_mem hs) d.toEvent List.mem_cons_self
    exact hne (Prod.ext (hhook.trans hd.symm) hpath)

/-- A walk in which no hook answers `exit` was called off, if there is such a
node. -/
theorem canceled_of_unreached {path : Path} {n : Node}
    (hstays : ∀ s ∈ v.steps root none state memory, s.answer ≠ .exit)
    (hn : root.at? path = some n) (hkept : ¬Suppressed (v.events root none state memory) path)
    (hnone : ∀ s ∈ v.steps root none state memory, s.hook = .wildcard → s.path ≠ path) :
    (v.visit root none state memory).1 = some .canceled := by
  have hcourse := course_visit v root none state memory
  rcases hhalt : (v.visit root none state memory).1 with - | - | -
  · rw [hhalt] at hcourse
    obtain ⟨flow, e, he, hhook, hpath, -⟩ := (hcourse.called_iff hn).1.2 hkept
    obtain ⟨s, hs, rfl⟩ := List.mem_map.1 he
    exact absurd hpath (hnone s hs hhook)
  · obtain ⟨s, hs, hanswer⟩ := (exit_visit v root none state memory).1.1 hhalt
    exact absurd hanswer (hstays s hs)
  · rfl

/-- Once a walk is called off, no node is begun: what is still called belongs to
nodes that were begun. -/
theorem begun_of_canceled (hlatch : v.Latches) {earlier later : List (Step σ α)}
    {s : Step σ α} (hlog : v.steps root none state memory = earlier ++ s :: later)
    (hs : v.canceled s.next = true) :
    ∀ t ∈ later, t.hook ≠ .wildcard ∧
      ∃ u ∈ earlier ++ [s], u.hook = .wildcard ∧ u.path = t.path := by
  obtain ⟨hthreaded, hmade⟩ := threaded_visit v root none state memory
  rw [hlog] at hthreaded
  obtain ⟨middle, -, -, hrest⟩ := threaded_append.1 hthreaded
  have hlater : ∀ t ∈ later, t ∈ v.steps root none state memory := fun t ht => by
    rw [hlog]
    exact List.mem_append_right _ (List.mem_cons_of_mem _ ht)
  have hoff := hlatch.threaded hrest (fun t ht => (hmade t (hlater t ht)).1) hs
  have hnot : ∀ t ∈ later, t.hook ≠ .wildcard := fun t ht hhook => by
    have hlive := (hmade t (hlater t ht)).2 hhook
    rw [hoff t ht] at hlive
    cases hlive
  refine fun t ht => ⟨hnot t ht, ?_⟩
  obtain ⟨flow, e, he, hhook, hpath, -⟩ :=
    (course_visit v root none state memory).begun (List.mem_map_of_mem (hlater t ht))
  obtain ⟨u, hu, rfl⟩ := List.mem_map.1 he
  rw [hlog, ← List.singleton_append, ← List.append_assoc] at hu
  exact ⟨u, (List.mem_append.1 hu).resolve_right fun hu => hnot u hu hhook, hhook, hpath⟩

end

/-- An exit ends a walk at once, and calling it off lets only nodes finish that
were begun. The walk is terminated exactly if some hook answers `exit`, and that
call is its last. Once the walk is called off, no node is begun. Where no hook
answers `exit`, the walk is canceled exactly if there is a node that no answer
leaves out and that was not begun; its steps are those of the walk that nobody
calls off, up to the one that begins such a node. -/
theorem walk_halting (v : Visitor σ α) (hlatch : v.Latches) (root : Node) (state : α)
    (memory : σ) :
    let log := v.steps root none state memory
    let outcome := (v.walk root state memory).1
    let unreached := fun path => ¬Suppressed (log.map (·.toEvent)) path ∧
      ∀ s ∈ log, s.hook = .wildcard → s.path ≠ path
    v.calls root state memory = log.map (·.toHookCall) ∧
      (outcome = .terminated ↔ ∃ s ∈ log, s.answer = .exit) ∧
      (∀ earlier s later, log = earlier ++ s :: later → s.answer = .exit → later = []) ∧
      (∀ earlier s later, log = earlier ++ s :: later → v.canceled s.next = true →
        ∀ t ∈ later, t.hook ≠ .wildcard ∧
          ∃ u ∈ earlier ++ [s], u.hook = .wildcard ∧ u.path = t.path) ∧
      ((∀ s ∈ log, s.answer ≠ .exit) →
        (outcome = .canceled ↔ ∃ path n, root.at? path = some n ∧ unreached path)) ∧
      (outcome = .canceled → ∃ d rest, v.calm.steps root none state memory = log ++ d :: rest ∧
        d.hook = .wildcard ∧ root.at? d.path = some d.node ∧ unreached d.path) ∧
      log <+: v.calm.steps root none state memory := by
  intro log outcome unreached
  obtain ⟨hexit, hlast⟩ := exit_visit v root none state memory
  have hterminated : outcome = .terminated ↔ (v.visit root none state memory).1 = some .exit :=
    walk_eq_ofHalt_iff (some .exit)
  have hcanceled : outcome = .canceled ↔ (v.visit root none state memory).1 = some .canceled :=
    walk_eq_ofHalt_iff (some .canceled)
  refine ⟨calls_eq_map_steps v root state memory, hterminated.trans hexit, hlast,
    fun earlier s later hlog hs => begun_of_canceled hlatch hlog hs, fun hstays => ⟨?_, ?_⟩,
    fun hend => exists_next (hcanceled.1 hend), ?_⟩
  · intro hend
    obtain ⟨d, -, -, -, hnode, hunreached⟩ := exists_next (hcanceled.1 hend)
    exact ⟨d.path, d.node, hnode, hunreached⟩
  · rintro ⟨path, n, hn, hkept, hnone⟩
    exact hcanceled.2 (canceled_of_unreached hstays hn hkept hnone)
  · rcases cut_visit v root none state memory with ⟨-, -, hsame⟩ | ⟨-, d, rest, hsteps, -⟩
    · exact ⟨[], (List.append_nil log).trans hsame.symm⟩
    · exact ⟨d :: rest, hsteps.symm⟩

/-- A visitor that looks into everything, and calls the walk off after some
calls of `enter` and `leave`. -/
def impatient (patience : Nat) : Visitor Nat Unit where
  wildcard _ _ calls := (.continue, calls)
  enter _ _ _ calls := (.continue, calls + 1)
  leave _ _ calls := (.continue, calls + 1)
  canceled calls := patience ≤ calls

theorem impatient_latches (patience : Nat) : (impatient patience).Latches where
  wildcard _ _ _ h := h
  enter _ _ _ _ h := decide_eq_true (Nat.le_succ_of_le (of_decide_eq_true h))
  leave _ _ _ h := decide_eq_true (Nat.le_succ_of_le (of_decide_eq_true h))

/-- Called off while an element of an array is entered, the walk still leaves
the element, and then does not begin the next one. -/
theorem walk_halting_array :
    let items : Node := .array ⟨0, 16⟩
      [some ⟨none, .null ⟨1, 5⟩⟩, some ⟨none, .null ⟨6, 10⟩⟩]
    (impatient 2).Latches ∧ ((impatient 2).walk items () 0).1 = .canceled ∧
      (((impatient 2).steps items none () 0).map fun s => (s.hook, s.path)) =
        [(.wildcard, []), (.enter, []), (.wildcard, [0]), (.enter, [0]), (.leave, [0])] ∧
      ∃ d rest, (impatient 2).calm.steps items none () 0 =
          (impatient 2).steps items none () 0 ++ d :: rest ∧
        d.hook = .wildcard ∧ items.at? d.path = some d.node := by
  intro items
  have hend : ((impatient 2).walk items () 0).1 = .canceled := by decide +kernel
  obtain ⟨-, -, -, -, -, hnext, -⟩ := walk_halting (impatient 2) (impatient_latches 2) items () 0
  obtain ⟨d, rest, hsteps, hd, hnode, -⟩ := hnext hend
  exact ⟨impatient_latches 2, hend, by decide +kernel, d, rest, hsteps, hd, hnode⟩

end Visitor

end StyleSense
