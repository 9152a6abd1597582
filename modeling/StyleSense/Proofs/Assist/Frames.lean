/-
# Frames

An analysis enters a frame with each module, script and block, and leaves it
with the node. Nodes that are left out have no frame entered, and once a walk
ends early none is left. So at any time the frames are those of the tracker at
the start and one for each such ancestor of the current node, and no frame is
ever missing.

All of this holds of every visitor that takes notes, whatever it looks for, if
looking changes no scope and leaves out no node with a frame of its own.
-/

import StyleSense.Assist.Completion
import StyleSense.Assist.Swatches
import StyleSense.Proofs.Assist.Pruning
import StyleSense.Proofs.Tree.Trace

namespace StyleSense

namespace Tracker

variable {t u : Tracker}

theorem SameConstants.depth_eq (h : SameConstants t u) : u.depth = t.depth :=
  congrArg List.length h.frames

/-- With a frame to leave, leaving succeeds. -/
theorem exists_pop_eq (h : 0 < t.depth) : ∃ u, t.pop = .ok u ∧ t.depth = u.depth + 1 := by
  rcases hframes : t.frames with - | ⟨frame, outer⟩
  · rw [depth, hframes] at h
    exact absurd h (Nat.lt_irrefl 0)
  · refine ⟨{ t with frames := outer }, ?_, ?_⟩
    · rw [pop, hframes]
    · rw [depth, hframes]
      rfl

theorem depth_bind {name : String} {value : Value} (h : t.bind name value = .ok u) :
    u.depth = t.depth := by
  unfold bind at h
  split at h
  · cases h
  · rename_i frame outer hframes
    cases h
    rw [depth, depth, hframes]
    rfl

theorem bind_error {name : String} {value : Value} {error : ScopeError}
    (h : t.bind name value = .error error) : error = .noActiveScope name ∧ t.depth = 0 := by
  unfold bind at h
  split at h
  · rename_i hframes
    cases h
    exact ⟨rfl, by rw [depth, hframes]; rfl⟩
  · cases h

end Tracker

namespace Assist

open StyleSense.Text StyleSense.Style

variable {α β : Type} {t u : Tracker}

theorem depth_bindConstants {declarators : List Node} (h : bindConstants t declarators = .ok u) :
    u.depth = t.depth := by
  fun_induction bindConstants t declarators with
  | case1 t =>
      cases h
      rfl
  | case2 t span target init rest name value hname hvalue ih =>
      rcases hbound : t.bind name value with error | bound
      · rw [hbound] at h
        cases h
      · rw [hbound] at h
        exact (ih bound h).trans (Tracker.depth_bind hbound)
  | case3 t span target init rest hnone ih => exact ih h
  | case4 t other rest hother ih => exact ih h

/-- Constants cannot be bound only where there is no frame. -/
theorem bindConstants_error {declarators : List Node} {error : ScopeError}
    (h : bindConstants t declarators = .error error) : error ≠ .underflow ∧ t.depth = 0 := by
  fun_induction bindConstants t declarators with
  | case1 t => cases h
  | case2 t span target init rest name value hname hvalue ih =>
      rcases hbound : t.bind name value with failed | bound
      · rw [hbound] at h
        cases h
        obtain ⟨rfl, hdepth⟩ := Tracker.bind_error hbound
        refine ⟨?_, hdepth⟩
        intro hunderflow
        cases hunderflow
      · rw [hbound] at h
        obtain ⟨herror, hdepth⟩ := ih bound h
        exact ⟨herror, (Tracker.depth_bind hbound).symm.trans hdepth⟩
  | case3 t span target init rest hnone ih => exact ih h
  | case4 t other rest hother ih => exact ih h

namespace Notes

theorem enter_of_opensFrame {node : Node} (h : opensFrame node = true) (notes : Notes β) :
    notes.enter (α := α) node = (none, { notes with tracker := notes.tracker.push }) := by
  cases node with
  | program => rfl
  | block => rfl
  | _ => cases h

/-- A node without a frame leaves the depth as it is, unless it is a constant
outside of all frames. -/
theorem enter_cases {node : Node} (h : opensFrame node = false) (notes : Notes β) :
    ((notes.enter (α := α) node).2.tracker.depth = notes.tracker.depth ∧
        (notes.enter (α := α) node).2.failure = notes.failure) ∨
      ∃ error, notes.enter (α := α) node =
          (some .exit, { notes with failure := some (.scope error) }) ∧
        error ≠ .underflow ∧ notes.tracker.depth = 0 := by
  cases node with
  | program => cases h
  | block => cases h
  | declaration span kind declarations =>
      rw [enter]
      split
      · cases hbound : bindConstants notes.tracker declarations with
        | ok u => exact .inl ⟨depth_bindConstants hbound, rfl⟩
        | error error => exact .inr ⟨error, rfl, bindConstants_error hbound⟩
      · exact .inl ⟨rfl, rfl⟩
  | declarator span target init =>
      exact .inl ⟨(Tracker.sameConstants_addRequire ..).depth_eq, rfl⟩
  | importFrom span specifiers source asserts =>
      exact .inl ⟨(Tracker.sameConstants_addImport ..).depth_eq, rfl⟩
  | plain form span slots rest => cases form <;> exact .inl ⟨rfl, rfl⟩
  | _ => exact .inl ⟨rfl, rfl⟩

/-- The answer fails with a scope error only if one was noted. -/
theorem failure_of_finish {γ : Type} {notes : Notes β} {outcome : Outcome} {f : Option β → γ}
    {error : ScopeError} (h : (notes.finish outcome).map f = .error (.scope error)) :
    notes.failure = some (.scope error) := by
  unfold finish at h
  split at h
  · rename_i failure hfailure
    cases h
    exact hfailure
  · cases h

end Notes

/-- What may be looked for without upsetting the frames. -/
structure Observes (look : Node → Option Node → α → Notes β → Flow α × Notes β) : Prop where
  tracker : ∀ node parent place notes, (look node parent place notes).2.tracker = notes.tracker
  failure : ∀ node parent place notes error,
    (look node parent place notes).2.failure = some (.scope error) →
      notes.failure = some (.scope error)
  frame : ∀ node parent place notes, opensFrame node = true →
    (look node parent place notes).1 = .continue

section

variable {token : Token} {prunes : Node → Bool}
  {look : Node → Option Node → α → Notes β → Flow α × Notes β}

/-- What the hook before the children does to the frames: it enters one where
the node has one, and fails only for a constant outside of all frames. -/
theorem visitor_enter_cases (hlook : Observes look) (node : Node) (parent : Option Node)
    (place : α) (notes : Notes β) {flow : Flow α} {next : Notes β}
    (h : (visitor token prunes look).enter node parent place notes = (flow, next)) :
    (next.tracker.depth = notes.tracker.depth + [node].countP opensFrame ∧
        (opensFrame node = true → flow = .continue) ∧
        ∀ error, next.failure = some (.scope error) → notes.failure = some (.scope error)) ∨
      (flow = .exit ∧ opensFrame node = false ∧ notes.tracker.depth = 0 ∧
        ∀ error, next.failure = some (.scope error) → error ≠ .underflow) := by
  have hlooked : ∀ noted : Notes β, look node parent place noted = (flow, next) →
      next.tracker = noted.tracker ∧
        ∀ error, next.failure = some (.scope error) → noted.failure = some (.scope error) := by
    intro noted hnext
    have htracker := hlook.tracker node parent place noted
    have hfailure := hlook.failure node parent place noted
    rw [hnext] at htracker hfailure
    exact ⟨htracker, hfailure⟩
  cases hopens : opensFrame node with
  | true =>
      have hflow :=
        hlook.frame node parent place { notes with tracker := notes.tracker.push } hopens
      simp only [visitor, Notes.enter_of_opensFrame hopens] at h
      rw [h] at hflow
      obtain ⟨htracker, hfailure⟩ := hlooked _ h
      refine .inl ⟨?_, fun _ => hflow, hfailure⟩
      rw [htracker, List.countP_singleton, if_pos hopens]
      rfl
  | false =>
      have hcount : [node].countP opensFrame = 0 := by
        rw [List.countP_singleton, if_neg (by rw [hopens]; exact Bool.false_ne_true)]
      rw [hcount]
      have hshut : false = true → flow = .continue := fun h => absurd h Bool.false_ne_true
      have hcases := Notes.enter_cases (α := α) hopens notes
      rcases henter : notes.enter (α := α) node with ⟨answer, noted⟩
      rw [henter] at hcases
      cases answer with
      | some answer =>
          simp only [visitor, henter, Prod.mk.injEq] at h
          obtain ⟨rfl, rfl⟩ := h
          rcases hcases with ⟨hdepth, hfailure⟩ | ⟨error, heq, herror, hdepth⟩
          · exact .inl ⟨hdepth, hshut, fun _ => hfailure ▸ id⟩
          · cases heq
            refine .inr ⟨rfl, rfl, hdepth, ?_⟩
            intro other hother
            cases hother
            exact herror
      | none =>
          simp only [visitor, henter] at h
          obtain ⟨htracker, hkept⟩ := hlooked noted h
          rcases hcases with ⟨hdepth, hfailure⟩ | ⟨error, heq, -⟩
          · refine .inl ⟨by rw [htracker]; exact hdepth, hshut, ?_⟩
            intro error herror
            rw [← hfailure]
            exact hkept error herror
          · cases heq

/-- Below a root with a frame of its own, some ancestor has one. -/
theorem countP_opensFrame_pos {root node : Node} {ancestors : List Node}
    (h : Node.Lineage root ancestors node) (hroot : opensFrame root = true)
    (hnode : opensFrame node = false) : 0 < ancestors.countP opensFrame := by
  have hmem : ∀ {ancestors node}, Node.Lineage root ancestors node →
      root = node ∨ root ∈ ancestors := by
    intro ancestors node h
    induction h with
    | root => exact .inl rfl
    | child _ _ ih =>
        rcases ih with rfl | hmem
        · exact .inr List.mem_cons_self
        · exact .inr (List.mem_cons_of_mem _ hmem)
  rcases hmem h with rfl | hmem
  · rw [hroot] at hnode
    cases hnode
  · exact List.countP_pos_iff.2 ⟨root, hmem, hroot⟩

/-- What holds all along a walk that began with `depth` frames: whenever a node
was entered, there were these and those of its ancestors, and a scope failure
is no underflow and occurs only under a root without a frame. -/
structure Framed (root : Node) (depth : Nat)
    (memory : Notes β × List (Visitor.Entry (Notes β))) : Prop where
  entered : ∀ entry ∈ memory.2, Node.Lineage root entry.ancestors entry.node ∧
    entry.memory.tracker.depth = depth + entry.ancestors.countP opensFrame
  failure : ∀ error, memory.1.failure = some (.scope error) →
    error ≠ .underflow ∧ opensFrame root = false

/-- The same, and the frames are those of `ancestors` unless the walk is over. -/
structure FramedBelow (root : Node) (depth : Nat) (ancestors : List Node) (halt : Option Halt)
    (memory : Notes β × List (Visitor.Entry (Notes β))) : Prop
    extends Framed root depth memory where
  inside : halt = none → memory.1.tracker.depth = depth + ancestors.countP opensFrame

variable {root node : Node} {depth : Nat} {ancestors : List Node}
  {memory : Notes β × List (Visitor.Entry (Notes β))}

/-- The trace with one more entry, after notes that keep what was noted. -/
theorem Framed.entry (hlineage : Node.Lineage root ancestors node)
    (h : FramedBelow root depth ancestors none memory) (notes : Notes β) {next : Notes β}
    (htracker : notes.tracker = memory.1.tracker)
    (hfailure : ∀ error, next.failure = some (.scope error) →
      error ≠ .underflow ∧ opensFrame root = false) :
    Framed root depth (next, memory.2 ++ [⟨ancestors, node, notes⟩]) where
  entered entry hentry := by
    rcases List.mem_append.1 hentry with hbefore | hnew
    · exact h.entered entry hbefore
    · rw [List.mem_singleton.1 hnew]
      exact ⟨hlineage, htracker ▸ h.inside rfl⟩
  failure := hfailure

theorem before_traced_of_leftOut (h : (!alwaysVisited node && prunes node) = true)
    (parent : Option Node) (place : α) :
    (visitor token prunes look).traced.before node parent (ancestors, place) memory =
      (.inl none, memory.1.counted, memory.2) := by
  simp only [Visitor.before, Visitor.traced, wildcard_of_leftOut h, Flow.map, Visitor.absorb]

theorem before_traced_of_kept (h : (!alwaysVisited node && prunes node) = false)
    (parent : Option Node) (place : α) {flow : Flow α} {next : Notes β}
    (henter : (visitor token prunes look).enter node parent place memory.1.counted =
      (flow, next)) :
    (visitor token prunes look).traced.before node parent (ancestors, place) memory =
      (Visitor.handedBelow (node :: ancestors) (Visitor.absorb place [] flow), next,
        memory.2 ++ [⟨ancestors, node, memory.1.counted⟩]) := by
  rw [← Visitor.absorb_handing ancestors (node :: ancestors) place [] flow]
  simp only [Visitor.before, Visitor.traced, wildcard_of_kept h, Flow.map, Visitor.absorb, henter]

/-- The hooks before the children lead into the frames that the children are to
see, or end the visit with the frames as they were. -/
theorem before_framed (hlook : Observes look) (hlineage : Node.Lineage root ancestors node)
    (h : FramedBelow root depth ancestors none memory) (parent : Option Node) (place : α) :
    (∃ halt next,
      (visitor token prunes look).traced.before node parent (ancestors, place) memory =
          (.inl halt, next) ∧
        FramedBelow root depth ancestors halt next) ∨
      ∃ handed ignored next,
        (visitor token prunes look).traced.before node parent (ancestors, place) memory =
            (.inr ((node :: ancestors, handed), ignored), next) ∧
          FramedBelow root depth (node :: ancestors) none next := by
  cases hpruned : (!alwaysVisited node && prunes node) with
  | true =>
      refine .inl ⟨none, _, before_traced_of_leftOut hpruned parent place, ?_⟩
      exact ⟨⟨h.entered, h.failure⟩, h.inside⟩
  | false =>
      rcases henter : (visitor token prunes look).enter node parent place memory.1.counted with
        ⟨flow, next⟩
      rw [before_traced_of_kept hpruned parent place henter]
      rcases visitor_enter_cases hlook node parent place _ henter with
        ⟨hdepth, hflow, hkept⟩ | ⟨rfl, hopens, hzero, herror⟩
      · have hframed := Framed.entry hlineage h memory.1.counted rfl
          fun error herror => h.failure error (hkept error herror)
        have hinside : next.tracker.depth = depth + (node :: ancestors).countP opensFrame := by
          have hbefore : memory.1.counted.tracker.depth = _ := h.inside rfl
          have hcount : ([node] ++ ancestors).countP opensFrame = _ := List.countP_append
          rw [List.singleton_append] at hcount
          omega
        rcases hstop : Visitor.absorb place [] flow with halt | ⟨handed, ignored⟩
        · refine .inl ⟨halt, _, rfl, hframed, ?_⟩
          rintro rfl
          -- only a node without a frame can be left out here
          have hopens : opensFrame node = false := by
            rw [Bool.eq_false_iff]
            intro hopens
            rw [hflow hopens] at hstop
            cases hstop
          rw [hinside, List.countP_cons_of_neg (by rw [hopens]; exact Bool.false_ne_true)]
        · exact .inr ⟨handed, ignored, _, rfl, hframed, fun _ => hinside⟩
      · have hroot : opensFrame root = false := by
          rw [Bool.eq_false_iff]
          intro hroot
          have hpos := countP_opensFrame_pos hlineage hroot hopens
          have hbefore : memory.1.counted.tracker.depth = _ := h.inside rfl
          omega
        refine .inl ⟨some .exit, _, rfl, ?_, nofun⟩
        exact Framed.entry hlineage h _ rfl fun error hnoted => ⟨herror error hnoted, hroot⟩

/-- The hook after the children leaves the frame that the node entered. -/
theorem after_framed (h : FramedBelow root depth (node :: ancestors) none memory)
    (place : List Node × α) :
    FramedBelow root depth ancestors
      ((visitor token prunes look).traced.after node place memory).1
      ((visitor token prunes look).traced.after node place memory).2 := by
  have hinside := h.inside rfl
  cases hopens : opensFrame node with
  | true =>
      rw [List.countP_cons_of_pos hopens] at hinside
      obtain ⟨left, hpop, hdepth⟩ := Tracker.exists_pop_eq (t := memory.1.tracker) (by omega)
      have hafter : (visitor token prunes look).traced.after node place memory =
          (none, { memory.1 with tracker := left }, memory.2) := by
        simp only [Visitor.after, Visitor.traced, visitor, Notes.leave, if_pos hopens, hpop,
          Notes.settle, Flow.map]
      rw [hafter]
      refine ⟨⟨h.entered, h.failure⟩, fun _ => ?_⟩
      show left.depth = _
      omega
  | false =>
      have hshut : ¬opensFrame node = true := by
        rw [hopens]
        exact Bool.false_ne_true
      have hafter :
          (visitor token prunes look).traced.after node place memory = (none, memory) := by
        simp only [Visitor.after, Visitor.traced, visitor, Notes.leave, if_neg hshut, Flow.map]
      rw [List.countP_cons_of_neg hshut] at hinside
      rw [hafter]
      exact ⟨h.toFramed, fun _ => hinside⟩

/-- Frames along the visit of a node. -/
theorem visit_framed (hlook : Observes look) (hlineage : Node.Lineage root ancestors node)
    (h : FramedBelow root depth ancestors none memory) (parent : Option Node) (place : α) :
    FramedBelow root depth ancestors
      ((visitor token prunes look).traced.visit node parent (ancestors, place) memory).1
      ((visitor token prunes look).traced.visit node parent (ancestors, place) memory).2 := by
  induction node using Node.induction generalizing ancestors parent place memory with
  | step node ih =>
      cases hlive : token memory.1.visited with
      | true =>
          rw [Visitor.visit_of_canceled (v := (visitor token prunes look).traced) hlive]
          exact ⟨h.toFramed, nofun⟩
      | false =>
          rcases before_framed hlook hlineage h parent place with
            ⟨halt, next, hbefore, hnext⟩ | ⟨handed, ignored, next, hbefore, hnext⟩
          · rw [Visitor.visit_of_inl (v := (visitor token prunes look).traced) hlive hbefore]
            exact hnext
          · rw [Visitor.visit_of_inr (v := (visitor token prunes look).traced) hlive hbefore]
            apply Visitor.visitBelow_post (FramedBelow root depth (node :: ancestors))
            · intro c hc m hm
              exact ih c hc (hlineage.child hc) hm (some node) handed
            · intro m hm
              exact after_framed hm (node :: ancestors, handed)
            · intro halt m hm
              exact ⟨hm.toFramed, nofun⟩
            · exact hnext

/-- A walk whose frames are balanced: whenever a node is entered there are the
frames that were there at the start and one for each ancestor with a frame of
its own; and after a walk to the end there are those at the start. -/
structure Balanced (v : Visitor (Notes β) α) (tree : Node) (place : α) (notes : Notes β) :
    Prop where
  entered : ∀ entry ∈ v.entries tree place notes,
    Node.Lineage tree entry.ancestors entry.node ∧
      entry.memory.tracker.depth = notes.tracker.depth + entry.ancestors.countP opensFrame
  left : (v.walk tree place notes).1 = .completed →
    (v.walk tree place notes).2.tracker.depth = notes.tracker.depth

/-- An answer that is no underflow and, under a root with a frame of its own, no
scope failure at all. -/
structure InScope {γ : Type} (tree : Node) (answer : Except Failure γ) : Prop where
  noUnderflow : answer ≠ .error (.scope .underflow)
  noFailure : opensFrame tree = true → ∀ error, answer ≠ .error (.scope error)

variable (token prunes) in
theorem walk_framed (hlook : Observes look) (tree : Node) (place : α) (tracker : Tracker)
    (found : β) :
    FramedBelow tree tracker.depth []
      ((visitor token prunes look).traced.visit tree none ([], place)
        (.start tracker found, [])).1
      ((visitor token prunes look).traced.visit tree none ([], place)
        (.start tracker found, [])).2 := by
  apply visit_framed hlook .root
  exact ⟨⟨fun _ hentry => absurd hentry List.not_mem_nil, nofun⟩, fun _ => rfl⟩

theorem balanced_visitor (hlook : Observes look) (tree : Node) (place : α) (tracker : Tracker)
    (found : β) : Balanced (visitor token prunes look) tree place (.start tracker found) where
  entered := (walk_framed token prunes hlook tree place tracker found).entered
  left hcompleted := by
    obtain ⟨houtcome, hnotes⟩ :=
      (visitor token prunes look).walk_traced tree place (.start tracker found)
    have hhalt := (Visitor.walk_eq_ofHalt_iff none).1 (houtcome.trans hcompleted)
    have hinside := (walk_framed token prunes hlook tree place tracker found).inside hhalt
    rw [← hnotes]
    exact hinside

/-- The answer after a walk. -/
def answer {γ : Type} (v : Visitor (Notes β) α) (tree : Node) (place : α) (notes : Notes β)
    (f : Option β → γ) : Except Failure γ :=
  ((v.walk tree place notes).2.finish (v.walk tree place notes).1).map f

theorem inScope_visitor {γ : Type} (hlook : Observes look) (tree : Node) (place : α)
    (tracker : Tracker) (found : β) (f : Option β → γ) :
    InScope tree (answer (visitor token prunes look) tree place (.start tracker found) f) := by
  have hframed := (walk_framed token prunes hlook tree place tracker found).failure
  have hnotes := ((visitor token prunes look).walk_traced tree place (.start tracker found)).2
  have hnoted : ∀ error, answer (visitor token prunes look) tree place (.start tracker found) f =
      .error (.scope error) → error ≠ .underflow ∧ opensFrame tree = false :=
    fun error h =>
      hframed error ((congrArg Notes.failure hnotes).trans (Notes.failure_of_finish h))
  constructor
  · intro h
    exact (hnoted _ h).1 rfl
  · intro hroot error h
    have hshut := (hnoted error h).2
    rw [hroot] at hshut
    cases hshut

end

/-- The visitor of a hover. -/
def Hover.searching (document : Document) (tree : Node) (position : Position)
    (normalize : Normalization) (token : Token) : Visitor (Notes (Option Hover)) Hover.Place :=
  let q : Hover.Query :=
    ⟨document, normalize, spanBase document tree, document.byteOfPosition position⟩
  visitor token (fun node => !q.touches node.span) (Hover.look q)

/-- The visitor of a completion. -/
def Completing.searching (document : Document) (tree : Node) (position : Position)
    (token : Token) : Visitor (Notes (List Completion.Suggestion)) Completing.Place :=
  let q : Completing.Query := ⟨document, spanBase document tree, position⟩
  visitor token (fun node => !q.nears node.span) (Completing.look q)

/-- The visitor that collects swatches. -/
def Coloring.searching (document : Document) (tree : Node) (token : Token) :
    Visitor (Notes (List Swatch)) (Option CallKind) :=
  visitor token (fun _ => false) (Coloring.look ⟨document, spanBase document tree⟩)

theorem hover?_eq_answer (document : Document) (tree : Node) (tracker : Tracker)
    (position : Position) (normalize : Normalization) (token : Token) :
    hover? document tree tracker position normalize token =
      answer (Hover.searching document tree position normalize token) tree Hover.Place.outside
        (.start tracker none) Option.join :=
  rfl

theorem completions?_eq_answer (document : Document) (tree : Node) (tracker : Tracker)
    (position : Position) (token : Token) :
    completions? document tree tracker position token =
      answer (Completing.searching document tree position token) tree Completing.Place.outside
        (.start tracker []) (Option.map (⟨·, true⟩)) :=
  rfl

theorem swatches?_eq_answer (document : Document) (tree : Node) (tracker : Tracker)
    (token : Token) :
    swatches? document tree tracker token =
      answer (Coloring.searching document tree token) tree none (.start tracker [])
        (Option.map (·.mergeSort Coloring.startsNoLater)) :=
  rfl

theorem Hover.observes_look (q : Hover.Query) : Observes (Hover.look q) where
  tracker := Hover.tracker_look q
  failure node parent place notes error h := by
    rcases look_cases q node parent place notes.tracker with ⟨flow, -, hlook⟩ | ⟨-, found, hlook⟩
    · rwa [hlook notes rfl] at h
    · rwa [hlook notes rfl] at h
  frame node parent place notes h := by
    cases node with
    | program => rfl
    | block => rfl
    | _ => cases h

theorem Completing.enterLiteral_cases (q : Completing.Query) (span : Span) (value : String)
    (place : Completing.Place) (notes : Notes (List Completion.Suggestion)) :
    (enterLiteral q span value place notes).2.tracker = notes.tracker ∧
      ∀ error, (enterLiteral q span value place notes).2.failure = some (.scope error) →
        notes.failure = some (.scope error) := by
  unfold enterLiteral
  split
  · exact ⟨rfl, fun _ => id⟩
  · extract_lets range
    split
    · exact ⟨rfl, fun _ => id⟩
    · split
      · exact ⟨rfl, fun _ => id⟩
      · exact ⟨rfl, nofun⟩

theorem Completing.look_cases (q : Completing.Query) (node : Node) (parent : Option Node)
    (place : Completing.Place) (notes : Notes (List Completion.Suggestion)) :
    (look q node parent place notes).2.tracker = notes.tracker ∧
      ∀ error, (look q node parent place notes).2.failure = some (.scope error) →
        notes.failure = some (.scope error) := by
  unfold look
  split
  · exact ⟨rfl, fun _ => id⟩
  · exact ⟨rfl, fun _ => id⟩
  · split
    · exact ⟨rfl, fun _ => id⟩
    · exact enterLiteral_cases ..
  · exact ⟨rfl, fun _ => id⟩

theorem Completing.observes_look (q : Completing.Query) : Observes (Completing.look q) where
  tracker node parent place notes := (look_cases q node parent place notes).1
  failure node parent place notes := (look_cases q node parent place notes).2
  frame node parent place notes h := by
    cases node with
    | program => rfl
    | block => rfl
    | _ => cases h

theorem Coloring.look_cases (q : Coloring.Query) (node : Node) (parent : Option Node)
    (call : Option CallKind) (notes : Notes (List Swatch)) :
    ∃ found, (look q node parent call notes).2 = { notes with found } := by
  unfold look
  extract_lets t
  split
  · split <;> exact ⟨notes.found, rfl⟩
  · exact ⟨_, rfl⟩
  · split
    · exact ⟨notes.found, rfl⟩
    · split
      · exact ⟨notes.found, rfl⟩
      · exact ⟨notes.found, rfl⟩
      · exact ⟨_, rfl⟩
  · exact ⟨notes.found, rfl⟩

theorem Coloring.observes_look (q : Coloring.Query) : Observes (Coloring.look q) where
  tracker node parent call notes := by
    obtain ⟨found, hfound⟩ := look_cases q node parent call notes
    rw [hfound]
  failure node parent call notes error h := by
    obtain ⟨found, hfound⟩ := look_cases q node parent call notes
    rwa [hfound] at h
  frame node parent call notes h := by
    cases node with
    | program => rfl
    | block => rfl
    | _ => cases h

/-- Hovers, completions and swatches keep their frames balanced, on every tree,
with every tracker, wherever the cursor is and whenever the request is called
off; and none of them fails for want of a frame. -/
theorem frames_balanced (document : Document) (tree : Node) (tracker : Tracker)
    (position : Position) (normalize : Normalization) (token : Token) :
    (Balanced (Hover.searching document tree position normalize token) tree Hover.Place.outside
          (.start tracker none) ∧
        InScope tree (hover? document tree tracker position normalize token)) ∧
      (Balanced (Completing.searching document tree position token) tree
          Completing.Place.outside (.start tracker []) ∧
        InScope tree (completions? document tree tracker position token)) ∧
      (Balanced (Coloring.searching document tree token) tree none (.start tracker []) ∧
        InScope tree (swatches? document tree tracker token)) := by
  rw [hover?_eq_answer, completions?_eq_answer, swatches?_eq_answer]
  refine ⟨⟨?_, ?_⟩, ⟨?_, ?_⟩, ?_, ?_⟩
  · exact balanced_visitor (Hover.observes_look _) tree _ tracker none
  · exact inScope_visitor (Hover.observes_look _) tree _ tracker none _
  · exact balanced_visitor (Completing.observes_look _) tree _ tracker []
  · exact inScope_visitor (Completing.observes_look _) tree _ tracker [] _
  · exact balanced_visitor (Coloring.observes_look _) tree _ tracker []
  · exact inScope_visitor (Coloring.observes_look _) tree _ tracker [] _

end Assist

end StyleSense
