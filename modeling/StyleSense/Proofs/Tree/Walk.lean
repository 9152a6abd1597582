/-
# Reasoning about walks

What a proof about a walk starts from: induction over the children of nodes,
the equations of a visit in terms of visits of children, and rules for the loop
over them. A visitor simulates another when related memories give equal answers
and related memories again; such visitors walk in step.
-/

import StyleSense.Tree.Walk

namespace StyleSense

namespace Node

/-- Induction over a tree: what holds of a node when it holds of its children
holds of every node. -/
theorem induction {P : Node → Prop} (step : ∀ n : Node, (∀ c ∈ n.children, P c.2) → P n)
    (n : Node) : P n :=
  step n fun c _ => induction step c.2
termination_by sizeOf n
decreasing_by exact sizeOf_lt_of_mem_children ‹_›

/-! Every item of a list of children is a child. -/

theorem exists_mem_itemsFrom {γ : Type} {field : Field} {x : γ} {items : List (Option γ)}
    (h : some x ∈ items) (index : Nat) : ∃ r, (r, x) ∈ itemsFrom field index items := by
  induction items generalizing index with
  | nil => cases h
  | cons item rest ih =>
      rcases List.mem_cons.1 h with rfl | hrest
      · exact ⟨_, List.mem_cons_self⟩
      · obtain ⟨r, hr⟩ := ih hrest (index + 1)
        cases item with
        | none => exact ⟨r, hr⟩
        | some y => exact ⟨r, List.mem_cons_of_mem _ hr⟩

theorem exists_mem_listChildren {γ : Type} {field : Field} {x : γ} {items : List γ}
    (h : x ∈ items) : ∃ r, (r, x) ∈ listChildren field items :=
  exists_mem_itemsFrom (List.mem_map_of_mem h) 0

theorem exists_mem_argumentChildren {γ : Type} {field : Field} {a : Argument γ}
    {items : List (Argument γ)} (h : a ∈ items) :
    ∃ r, (r, a.expression) ∈ argumentChildren field items := by
  have hmem : some a.expression ∈ items.map fun a => some a.expression :=
    List.mem_map.2 ⟨a, h, rfl⟩
  exact exists_mem_itemsFrom hmem 0

theorem exists_mem_elementChildren {γ : Type} {field : Field} {a : Argument γ}
    {items : List (Option (Argument γ))} (h : some a ∈ items) :
    ∃ r, (r, a.expression) ∈ elementChildren field items := by
  have hmem : some a.expression ∈ items.map (Option.map Argument.expression) :=
    List.mem_map.2 ⟨some a, h, rfl⟩
  exact exists_mem_itemsFrom hmem 0

theorem key_mem_children (kind : PairKind) (key value : Node) :
    (.whole .key, key) ∈ (pair kind key value).children :=
  List.mem_cons_self

theorem value_mem_children (kind : PairKind) (key value : Node) :
    (.whole .value, value) ∈ (pair kind key value).children :=
  List.mem_append_right _ List.mem_cons_self

/-- A node of a tree with its ancestors, the closest first. -/
inductive Lineage (root : Node) : List Node → Node → Prop
  | root : Lineage root [] root
  | child {ancestors : List Node} {n : Node} {c : ChildRef × Node}
      (h : Lineage root ancestors n) (hc : c ∈ n.children) : Lineage root (n :: ancestors) c.2

/-- A list with the root and all children of its nodes has every node. -/
theorem Lineage.mem_of_closed {root n : Node} {ancestors : List Node}
    {nodes : List (List Node × Node)} (hroot : ([], root) ∈ nodes)
    (hclosed : ∀ x ∈ nodes, ∀ c ∈ x.2.children, (x.2 :: x.1, c.2) ∈ nodes)
    (h : Lineage root ancestors n) : (ancestors, n) ∈ nodes := by
  induction h with
  | root => exact hroot
  | child _ hc ih => exact hclosed _ ih _ hc

end Node

namespace Visitor

variable {σ τ α β : Type}

theorem runAll_cons_of_none {f : β → σ → Option Halt × σ} {x : β} {memory next : σ}
    (h : f x memory = (none, next)) (xs : List β) :
    runAll f (x :: xs) memory = runAll f xs next := by
  rw [runAll, h]

theorem runAll_cons_of_some {f : β → σ → Option Halt × σ} {x : β} {memory next : σ}
    {halt : Halt} (h : f x memory = (some halt, next)) (xs : List β) :
    runAll f (x :: xs) memory = (some halt, next) := by
  rw [runAll, h]

/-- A loop that carries proofs of membership along is the plain loop. -/
theorem runAll_attachWith {p : β → Prop} (step : β → σ → Option Halt × σ) (xs : List β)
    (h : ∀ x ∈ xs, p x) (memory : σ) :
    runAll (fun x : { x // p x } => step x.1) (xs.attachWith p h) memory =
      runAll step xs memory := by
  let carried : { x // p x } → σ → Option Halt × σ := fun x => step x.1
  induction xs generalizing memory with
  | nil => rfl
  | cons x xs ih =>
      have hx : p x := h x List.mem_cons_self
      have hrest := ih fun y hmem => h y (List.mem_cons_of_mem _ hmem)
      rw [List.attachWith_cons]
      rcases hstep : step x memory with ⟨halt, next⟩
      have hcarried : carried ⟨x, hx⟩ memory = (halt, next) := hstep
      cases halt with
      | none => rw [runAll_cons_of_none hstep, runAll_cons_of_none hcarried, hrest]
      | some halt => rw [runAll_cons_of_some hstep, runAll_cons_of_some hcarried]

/-- A loop whose steps never halt and keep a property does so as a whole. -/
theorem runAll_of_none {P : σ → Prop} {f : β → σ → Option Halt × σ} {xs : List β}
    (step : ∀ x ∈ xs, ∀ m, P m → ∃ next, f x m = (none, next) ∧ P next) {m : σ} (hP : P m) :
    ∃ next, runAll f xs m = (none, next) ∧ P next := by
  induction xs generalizing m with
  | nil => exact ⟨m, rfl, hP⟩
  | cons x xs ih =>
      obtain ⟨middle, hmiddle, hP⟩ := step x List.mem_cons_self m hP
      obtain ⟨next, hnext, hP⟩ := ih (fun x hmem => step x (List.mem_cons_of_mem _ hmem)) hP
      exact ⟨next, by rw [runAll_cons_of_none hmiddle, hnext], hP⟩

/-- What each step of a loop leads to from where the loop may go on, the loop as
a whole leads to. `Post none` is what holds between two steps. -/
theorem runAll_post {Post : Option Halt → σ → Prop} {f : β → σ → Option Halt × σ} {xs : List β}
    (step : ∀ x ∈ xs, ∀ m, Post none m → Post (f x m).1 (f x m).2) {m : σ} (h : Post none m) :
    Post (runAll f xs m).1 (runAll f xs m).2 := by
  induction xs generalizing m with
  | nil => exact h
  | cons x xs ih =>
      have hnext := step x List.mem_cons_self m h
      rcases hf : f x m with ⟨halt, next⟩
      rw [hf] at hnext
      cases halt with
      | none =>
          rw [runAll_cons_of_none hf]
          exact ih (fun x hmem => step x (List.mem_cons_of_mem _ hmem)) hnext
      | some halt =>
          rw [runAll_cons_of_some hf]
          exact hnext

/-- Two loops whose steps keep memories related, with equal ends, do so as a
whole. -/
theorem runAll_related {R : σ → τ → Prop} {f : β → σ → Option Halt × σ}
    {g : β → τ → Option Halt × τ} {xs : List β}
    (step : ∀ x ∈ xs, ∀ m n, R m n →
      (f x m).1 = (g x n).1 ∧ R (f x m).2 (g x n).2)
    {m : σ} {n : τ} (hR : R m n) :
    (runAll f xs m).1 = (runAll g xs n).1 ∧
      R (runAll f xs m).2 (runAll g xs n).2 := by
  induction xs generalizing m n with
  | nil => exact ⟨rfl, hR⟩
  | cons x xs ih =>
      obtain ⟨hend, hnext⟩ := step x List.mem_cons_self m n hR
      rcases hf : f x m with ⟨halt, m'⟩
      rcases hg : g x n with ⟨halt', n'⟩
      rw [hf, hg] at hend hnext
      obtain rfl : halt = halt' := hend
      cases halt with
      | none =>
          rw [runAll_cons_of_none hf, runAll_cons_of_none hg]
          exact ih (fun x hmem => step x (List.mem_cons_of_mem _ hmem)) hnext
      | some halt =>
          rw [runAll_cons_of_some hf, runAll_cons_of_some hg]
          exact ⟨rfl, hnext⟩

/-- Only `exit` ends the walk: any other answer leaves out the node or goes
on. -/
theorem absorb_of_ne_exit {flow : Flow α} (h : flow ≠ .exit) (state : α)
    (ignored : List ChildRef) :
    absorb state ignored flow = .inl none ∨
      ∃ handed others, absorb state ignored flow = .inr (handed, others) := by
  cases flow with
  | exit => exact absurd rfl h
  | skip => exact .inl rfl
  | «continue» => exact .inr ⟨state, ignored, rfl⟩
  | replace next => exact .inr ⟨next, ignored, rfl⟩
  | replaceIgnoring next more => exact .inr ⟨next, ignored ++ more, rfl⟩

/-- The visit of one child, unless it is left out. -/
def visitChild (v : Visitor σ α) (node : Node) (state : α) (ignored : List ChildRef)
    (c : ChildRef × Node) (memory : σ) : Option Halt × σ :=
  if ignored.any (·.covers c.1) then (none, memory) else v.visit c.2 (some node) state memory

/-- The visit of a node once its first two hooks let it go on. -/
def visitBelow (v : Visitor σ α) (node : Node) (state : α) (ignored : List ChildRef)
    (memory : σ) : Option Halt × σ :=
  match runAll (v.visitChild node state ignored) node.children memory with
  | (none, memory) => v.after node state memory
  | halted => halted

theorem visit_eq (v : Visitor σ α) (node : Node) (parent : Option Node) (state : α)
    (memory : σ) :
    v.visit node parent state memory =
      if v.canceled memory then (some .canceled, memory)
      else
        match v.before node parent state memory with
        | (.inl halt, memory) => (halt, memory)
        | (.inr (state, ignored), memory) => v.visitBelow node state ignored memory := by
  rw [visit]
  by_cases hcanceled : v.canceled memory = true
  · rw [if_pos hcanceled, if_pos hcanceled]
  · rw [if_neg hcanceled, if_neg hcanceled]
    rcases v.before node parent state memory with ⟨halt | ⟨handed, ignored⟩, next⟩
    · rfl
    · have hloop := runAll_attachWith (v.visitChild node handed ignored) node.children
        (fun c hc => hc) next
      simp only [visitBelow, ← hloop]
      rfl

/-- How a walk ends is how the visit of its root ends. -/
theorem walk_eq_ofHalt_iff {v : Visitor σ α} {root : Node} {state : α} {memory : σ}
    (halt : Option Halt) :
    (v.walk root state memory).1 = .ofHalt halt ↔ (v.visit root none state memory).1 = halt := by
  change Outcome.ofHalt (v.visit root none state memory).1 = .ofHalt halt ↔ _
  rcases (v.visit root none state memory).1 with - | - | - <;> rcases halt with - | - | - <;>
    simp [Outcome.ofHalt]

theorem visit_of_canceled {v : Visitor σ α} {memory : σ} (h : v.canceled memory = true)
    (node : Node) (parent : Option Node) (state : α) :
    v.visit node parent state memory = (some .canceled, memory) := by
  rw [visit_eq, if_pos h]

theorem visit_of_inl {v : Visitor σ α} {node : Node} {parent : Option Node} {state : α}
    {m next : σ} {halt : Option Halt} (hlive : v.canceled m = false)
    (h : v.before node parent state m = (.inl halt, next)) :
    v.visit node parent state m = (halt, next) := by
  rw [visit_eq, hlive, h]
  rfl

theorem visit_of_inr {v : Visitor σ α} {node : Node} {parent : Option Node}
    {state handed : α} {m next : σ} {ignored : List ChildRef}
    (hlive : v.canceled m = false)
    (h : v.before node parent state m = (.inr (handed, ignored), next)) :
    v.visit node parent state m = v.visitBelow node handed ignored next := by
  rw [visit_eq, hlive, h]
  rfl

theorem visitBelow_of_none {v : Visitor σ α} {node : Node} {state : α} {ignored : List ChildRef}
    {memory next : σ}
    (h : runAll (v.visitChild node state ignored) node.children memory = (none, next)) :
    v.visitBelow node state ignored memory = v.after node state next := by
  rw [visitBelow, h]

theorem visitBelow_of_some {v : Visitor σ α} {node : Node} {state : α} {ignored : List ChildRef}
    {memory next : σ} {halt : Halt}
    (h : runAll (v.visitChild node state ignored) node.children memory = (some halt, next)) :
    v.visitBelow node state ignored memory = (some halt, next) := by
  rw [visitBelow, h]

/-- What the visits of the children lead to, and the last hook from there, is
what the visit below a node leads to. -/
theorem visitBelow_post (Post : Option Halt → σ → Prop) {Final : Option Halt → σ → Prop}
    {v : Visitor σ α} {node : Node} {state : α} {ignored : List ChildRef}
    (hchild : ∀ c ∈ node.children, ∀ m, Post none m →
      Post (v.visit c.2 (some node) state m).1 (v.visit c.2 (some node) state m).2)
    (hafter : ∀ m, Post none m → Final (v.after node state m).1 (v.after node state m).2)
    (hhalt : ∀ halt m, Post (some halt) m → Final (some halt) m) {m : σ} (h : Post none m) :
    Final (v.visitBelow node state ignored m).1 (v.visitBelow node state ignored m).2 := by
  have hloop := runAll_post (f := v.visitChild node state ignored) (fun c hc m hm => by
    unfold visitChild
    split
    · exact hm
    · exact hchild c hc m hm) h
  rcases hrun : runAll (v.visitChild node state ignored) node.children m with ⟨halt, next⟩
  rw [hrun] at hloop
  cases halt with
  | none =>
      rw [visitBelow_of_none hrun]
      exact hafter next hloop
  | some halt =>
      rw [visitBelow_of_some hrun]
      exact hhalt halt next hloop

/-- Below a node two visitors stay related when they do so on each child and
after the children. -/
theorem visitBelow_related {R : σ → τ → Prop} {v : Visitor σ α} {w : Visitor τ β} {node : Node}
    {state : α} {state' : β} {ignored : List ChildRef}
    (hchild : ∀ c ∈ node.children, ∀ m n, R m n →
      (v.visit c.2 (some node) state m).1 = (w.visit c.2 (some node) state' n).1 ∧
        R (v.visit c.2 (some node) state m).2 (w.visit c.2 (some node) state' n).2)
    (hafter : ∀ m n, R m n → (v.after node state m).1 = (w.after node state' n).1 ∧
      R (v.after node state m).2 (w.after node state' n).2)
    {m : σ} {n : τ} (hR : R m n) :
    (v.visitBelow node state ignored m).1 = (w.visitBelow node state' ignored n).1 ∧
      R (v.visitBelow node state ignored m).2 (w.visitBelow node state' ignored n).2 := by
  have hloop := runAll_related (f := v.visitChild node state ignored)
    (g := w.visitChild node state' ignored) (fun c hc m n hR => by
      unfold visitChild
      split
      · exact ⟨rfl, hR⟩
      · exact hchild c hc m n hR) hR
  rcases hv : runAll (v.visitChild node state ignored) node.children m with ⟨halt, m'⟩
  rcases hw : runAll (w.visitChild node state' ignored) node.children n with ⟨halt', n'⟩
  rw [hv, hw] at hloop
  obtain ⟨rfl, hnext⟩ : halt = halt' ∧ R m' n' := hloop
  cases halt with
  | none =>
      rw [visitBelow_of_none hv, visitBelow_of_none hw]
      exact hafter m' n' hnext
  | some halt =>
      rw [visitBelow_of_some hv, visitBelow_of_some hw]
      exact ⟨rfl, hnext⟩

/-- On nodes with a property, hooks that are given a state and a memory with
theirs keep that of the memory, and hand down only states with it. -/
structure Keeps (S : α → Prop) (R : σ → Prop) (P : Node → Prop) (v : Visitor σ α) : Prop where
  before : ∀ {node parent state m}, P node → S state → R m →
    R (v.before node parent state m).2 ∧
      ∀ handed ignored, (v.before node parent state m).1 = .inr (handed, ignored) → S handed
  after : ∀ {node state m}, P node → S state → R m → R (v.after node state m).2

/-- A whole visit keeps what its hooks keep, if each child has the property when
its parent does. -/
theorem Keeps.visit {S : α → Prop} {R : σ → Prop} {P : Node → Prop} {v : Visitor σ α}
    (h : Keeps S R P v) (hchild : ∀ n, P n → ∀ c ∈ n.children, P c.2) {node : Node}
    {parent : Option Node} {state : α} {m : σ} (hnode : P node) (hstate : S state) (hR : R m) :
    R (v.visit node parent state m).2 := by
  induction node using Node.induction generalizing parent state m with
  | step node ih =>
      cases hlive : v.canceled m with
      | true =>
          rw [visit_of_canceled hlive]
          exact hR
      | false =>
          obtain ⟨hnext, hhanded⟩ : R (v.before node parent state m).2 ∧
              ∀ handed ignored, (v.before node parent state m).1 = .inr (handed, ignored) →
                S handed := h.before hnode hstate hR
          rcases hbefore : v.before node parent state m with ⟨halt | ⟨handed, ignored⟩, next⟩
          all_goals rw [hbefore] at hnext hhanded
          · rw [visit_of_inl hlive hbefore]
            exact hnext
          · have hstate := hhanded handed ignored rfl
            rw [visit_of_inr hlive hbefore]
            refine @visitBelow_post _ _ (fun _ => R) (fun _ => R) v node handed ignored ?_ ?_
              (fun _ _ => id) next hnext
            · intro c hc m hm
              exact ih c hc (hchild node hnode c hc) hstate hm
            · intro m hm
              exact h.after hnode hstate hm

/-- Both end the visit in the same way, or both go on, with related states and
the same children left out. -/
inductive StopsAlike (S : α → β → Prop) :
    Option Halt ⊕ (α × List ChildRef) → Option Halt ⊕ (β × List ChildRef) → Prop
  | ended (halt : Option Halt) : StopsAlike S (.inl halt) (.inl halt)
  | handed {state : α} {state' : β} (h : S state state') (ignored : List ChildRef) :
      StopsAlike S (.inr (state, ignored)) (.inr (state', ignored))

theorem StopsAlike.refl (stop : Option Halt ⊕ (α × List ChildRef)) : StopsAlike Eq stop stop := by
  rcases stop with halt | ⟨state, ignored⟩
  · exact .ended halt
  · exact .handed rfl ignored

/-- On nodes with a property, related states and memories give the same answers
and related ones again. -/
structure InStep (S : α → β → Prop) (R : σ → τ → Prop) (P : Node → Prop) (v : Visitor σ α)
    (w : Visitor τ β) : Prop where
  live : ∀ {m n}, R m n → w.canceled n = v.canceled m
  before : ∀ {node parent state state' m n}, P node → (∀ p ∈ parent, P p) → S state state' →
    R m n → StopsAlike S (v.before node parent state m).1 (w.before node parent state' n).1 ∧
      R (v.before node parent state m).2 (w.before node parent state' n).2
  after : ∀ {node state state' m n}, P node → S state state' → R m n →
    (v.after node state m).1 = (w.after node state' n).1 ∧
      R (v.after node state m).2 (w.after node state' n).2

/-- Visitors in step visit a tree in step, if each child has the property when
its parent does. -/
theorem InStep.visit {S : α → β → Prop} {R : σ → τ → Prop} {P : Node → Prop}
    {v : Visitor σ α} {w : Visitor τ β} (h : InStep S R P v w)
    (hchild : ∀ n, P n → ∀ c ∈ n.children, P c.2) {node : Node} {parent : Option Node}
    {state : α} {state' : β} {m : σ} {n : τ} (hnode : P node) (hparent : ∀ p ∈ parent, P p)
    (hstate : S state state') (hR : R m n) :
    (v.visit node parent state m).1 = (w.visit node parent state' n).1 ∧
      R (v.visit node parent state m).2 (w.visit node parent state' n).2 := by
  induction node using Node.induction generalizing parent state state' m n with
  | step node ih =>
      cases hlive : v.canceled m with
      | true =>
          have hlive' : w.canceled n = true := (h.live hR).trans hlive
          rw [visit_of_canceled hlive, visit_of_canceled hlive']
          exact ⟨rfl, hR⟩
      | false =>
          have hlive' : w.canceled n = false := (h.live hR).trans hlive
          obtain ⟨hstop, hnext⟩ := h.before hnode hparent hstate hR
          rcases hv : v.before node parent state m with ⟨stop, m'⟩
          rcases hw : w.before node parent state' n with ⟨stop', n'⟩
          rw [hv, hw] at hstop hnext
          cases hstop with
          | ended halt =>
              rw [visit_of_inl hlive hv, visit_of_inl hlive' hw]
              exact ⟨rfl, hnext⟩
          | handed hhanded ignored =>
              rw [visit_of_inr hlive hv, visit_of_inr hlive' hw]
              apply visitBelow_related _ _ hnext
              · intro c hc m n hR
                apply ih c hc (hchild node hnode c hc) _ hhanded hR
                rintro p ⟨⟩
                exact hnode
              · intro m n hR
                exact h.after hnode hhanded hR

end Visitor

end StyleSense
