/-
# Analyses side by side

An analysis of a tree and one of a copy with other spans take parallel notes, if
what the one leaves out and looks for the other does too. So they end alike and
find the same.
-/

import StyleSense.Proofs.Assist.Frames
import StyleSense.Proofs.Scope.Parallel

namespace StyleSense.Assist

open StyleSense.Text

variable {α β : Type} {r : Latitude} {f : Span → Span} {t u : Tracker} {node : Node}

/-- Parallel trackers bind the same constants. -/
theorem bindConstants_parallel (hstrict : ¬r.loose) {declarators : List Node}
    (hplaced : ∀ n ∈ declarators, n.Placed r f) (h : t.Parallel r u) :
    Tracker.ParallelResults r (bindConstants t declarators)
      (bindConstants u (Node.mapSpansAll f declarators)) := by
  induction declarators generalizing t u with
  | nil => exact .ok h
  | cons n rest ih =>
      have hrest : ∀ m ∈ rest, m.Placed r f := fun m hmem => hplaced m (List.mem_cons_of_mem _ hmem)
      have hn := hplaced n List.mem_cons_self
      rw [Node.mapSpansAll]
      cases n with
      | declarator span target init =>
          cases init with
          | none => exact ih hrest h
          | some init =>
              have hinit : init.Placed r f := hn.child (c := (.whole .init, init))
                List.mem_cons_self
              rw [Node.mapSpans, Node.mapSpansOption, bindConstants, bindConstants,
                Node.identifierName?_mapSpans]
              cases target.identifierName? with
              | none => exact ih hrest h
              | some name =>
                  rcases (h.evaluate hstrict hinit).value?_cases with
                    ⟨hv, hloose | hw⟩ | ⟨v, w, hv, hw, hvalue⟩
                  · exact absurd hloose hstrict
                  · rw [hv, hw]
                    exact ih hrest h
                  · rw [hv, hw]
                    have hbind := h.bind name hvalue
                    simp only
                    generalize t.bind name v = bound at hbind
                    generalize u.bind name w = bound' at hbind
                    cases hbind with
                    | ok hbound => exact ih hrest hbound
                    | error error => exact .error error
      | _ => exact ih hrest h

namespace Notes

/-- Notes that differ in the places of constants alone. -/
structure Parallel (r : Latitude) (m n : Notes β) : Prop where
  tracker : m.tracker.Parallel r n.tracker
  failure : n.failure = m.failure
  visited : n.visited = m.visited
  found : n.found = m.found

variable {m n : Notes β}

theorem settle_parallel (h : m.Parallel r n) {result result' : Except ScopeError Tracker}
    (hresult : Tracker.ParallelResults r result result') :
    (n.settle (α := α) result').1 = (m.settle (α := α) result).1 ∧
      (m.settle (α := α) result).2.Parallel r (n.settle (α := α) result').2 := by
  cases hresult with
  | ok htracker => exact ⟨rfl, htracker, h.failure, h.visited, h.found⟩
  | error error => exact ⟨rfl, h.tracker, rfl, h.visited, h.found⟩

theorem enter_parallel (hstrict : ¬r.loose) (hnode : node.Placed r f) (h : m.Parallel r n) :
    (n.enter (α := α) (node.mapSpans f)).1 = (m.enter (α := α) node).1 ∧
      (m.enter (α := α) node).2.Parallel r (n.enter (α := α) (node.mapSpans f)).2 := by
  cases node with
  | program => exact ⟨rfl, h.tracker.push, h.failure, h.visited, h.found⟩
  | block => exact ⟨rfl, h.tracker.push, h.failure, h.visited, h.found⟩
  | declaration span kind declarations =>
      rw [Node.mapSpans, enter, enter]
      split
      · apply settle_parallel h
        apply bindConstants_parallel hstrict _ h.tracker
        intro declarator hmem
        obtain ⟨ref, hc⟩ := Node.exists_mem_listChildren hmem
        exact hnode.child hc
      · exact ⟨rfl, h⟩
  | declarator span target init =>
      have htarget : target.Placed r f := hnode.child (c := (.whole .id, target))
        (List.mem_append_right _ List.mem_cons_self)
      exact ⟨rfl, h.tracker.addRequire hstrict htarget init, h.failure, h.visited, h.found⟩
  | importFrom span specifiers source =>
      exact ⟨rfl, h.tracker.addImport f specifiers source, h.failure, h.visited, h.found⟩
  | plain form => cases form <;> exact ⟨rfl, h⟩
  | _ => exact ⟨rfl, h⟩

theorem opensFrame_mapSpans (f : Span → Span) (node : Node) :
    opensFrame (node.mapSpans f) = opensFrame node := by
  cases node <;> rfl

theorem leave_parallel (f : Span → Span) (node : Node) (h : m.Parallel r n) :
    (n.leave (α := α) (node.mapSpans f)).1 = (m.leave (α := α) node).1 ∧
      (m.leave (α := α) node).2.Parallel r (n.leave (α := α) (node.mapSpans f)).2 := by
  rw [leave, leave, opensFrame_mapSpans]
  split
  · have hsettle := settle_parallel (α := α) h h.tracker.pop
    rcases hm : m.settle (α := α) m.tracker.pop with ⟨answer, next⟩
    rcases hn : n.settle (α := α) n.tracker.pop with ⟨answer', next'⟩
    rw [hm, hn] at hsettle
    obtain ⟨rfl, hnext⟩ : answer' = answer ∧ next.Parallel r next' := hsettle
    cases answer' <;> exact ⟨rfl, hnext⟩
  · exact ⟨rfl, h⟩

/-- The answers after parallel walks are equal. -/
theorem finish_parallel (h : m.Parallel r n) (outcome : Outcome) :
    n.finish outcome = m.finish outcome := by
  rw [finish, finish, h.failure, h.found]

end Notes

theorem alwaysVisited_mapSpans (f : Span → Span) (node : Node) :
    alwaysVisited (node.mapSpans f) = alwaysVisited node := by
  cases node with
  | plain form => cases form <;> rfl
  | _ => rfl

/-- What an analysis looks for in a copy is what the other looks for in the
tree. -/
def LooksAlike (r : Latitude) (f : Span → Span)
    (look look' : Node → Option Node → α → Notes β → Flow α × Notes β) : Prop :=
  ∀ node parent place m n, node.Placed r f → (∀ p ∈ parent, p.Placed r f) →
    Notes.Parallel r m n →
      (look' (node.mapSpans f) (parent.map (Node.mapSpans f)) place n).1 =
          (look node parent place m).1 ∧
        (look node parent place m).2.Parallel r
          (look' (node.mapSpans f) (parent.map (Node.mapSpans f)) place n).2

variable {token : Token} {prunes prunes' : Node → Bool}
  {look look' : Node → Option Node → α → Notes β → Flow α × Notes β}

variable (token prunes prunes') in
theorem visitor_enter_parallel (hstrict : ¬r.loose) (hlook : LooksAlike r f look look')
    (hnode : node.Placed r f) {parent : Option Node} (hparent : ∀ p ∈ parent, p.Placed r f)
    (place : α) {m n : Notes β} (h : m.Parallel r n) :
    ((visitor token prunes' look').enter (node.mapSpans f) (parent.map (Node.mapSpans f))
          place n).1 =
        ((visitor token prunes look).enter node parent place m).1 ∧
      ((visitor token prunes look).enter node parent place m).2.Parallel r
        ((visitor token prunes' look').enter (node.mapSpans f) (parent.map (Node.mapSpans f))
          place n).2 := by
  have henter := Notes.enter_parallel (α := α) hstrict hnode h
  rcases hm : m.enter (α := α) node with ⟨answer, next⟩
  rcases hn : n.enter (α := α) (node.mapSpans f) with ⟨answer', next'⟩
  rw [hm, hn] at henter
  obtain ⟨rfl, hnext⟩ : answer' = answer ∧ next.Parallel r next' := henter
  cases answer' with
  | none =>
      simp only [visitor, hm, hn]
      exact hlook node parent place next next' hnode hparent hnext
  | some answer =>
      simp only [visitor, hm, hn]
      exact ⟨trivial, hnext⟩

variable (token) in
/-- The two visitors are in step. -/
theorem inStep_visitor (hstrict : ¬r.loose)
    (hprunes : ∀ node, node.Placed r f → prunes' (node.mapSpans f) = prunes node)
    (hlook : LooksAlike r f look look') :
    Visitor.InStep Eq (Notes.Parallel r) (Node.Placed r f) (visitor token prunes look)
      ((visitor token prunes' look').respan f) where
  live h := congrArg token h.visited
  before := by
    rintro node parent place _ m n hnode hparent rfl h
    have hcounted : m.counted.Parallel r n.counted :=
      ⟨h.tracker, h.failure, congrArg (· + 1) h.visited, h.found⟩
    have hshown : ((visitor token prunes' look').respan f).before node parent place n =
        (visitor token prunes' look').before (node.mapSpans f) (parent.map (Node.mapSpans f))
          place n := rfl
    have hpicked : (!alwaysVisited (node.mapSpans f) && prunes' (node.mapSpans f)) =
        (!alwaysVisited node && prunes node) := by
      rw [alwaysVisited_mapSpans, hprunes node hnode]
    rw [hshown]
    cases hleft : (!alwaysVisited node && prunes node) with
    | true =>
        rw [before_of_leftOut hleft, before_of_leftOut (hpicked.trans hleft)]
        exact ⟨.ended none, hcounted⟩
    | false =>
        obtain ⟨hflow, hnext⟩ := visitor_enter_parallel token prunes prunes' hstrict hlook
          hnode hparent place hcounted
        rw [before_of_kept hleft, before_of_kept (hpicked.trans hleft), hflow]
        exact ⟨.refl _, hnext⟩
  after := by
    rintro node place _ m n - rfl h
    obtain ⟨hflow, hnext⟩ := Notes.leave_parallel (α := α) f node h
    rcases hm : m.leave (α := α) node with ⟨flow, next⟩
    rcases hn : n.leave (α := α) (node.mapSpans f) with ⟨flow', next'⟩
    rw [hm, hn] at hflow hnext
    obtain rfl : flow' = flow := hflow
    simp only [Visitor.after, Visitor.respan, visitor, hm, hn]
    cases flow' <;> exact ⟨rfl, hnext⟩

/-- Parallel analyses have equal answers. -/
theorem answer_mapSpans {γ : Type} {tree : Node} (hstrict : ¬r.loose) (htree : tree.Placed r f)
    (hprunes : ∀ node, node.Placed r f → prunes' (node.mapSpans f) = prunes node)
    (hlook : LooksAlike r f look look') {m n : Notes β} (h : m.Parallel r n) (place : α)
    (g : Option β → γ) :
    answer (visitor token prunes' look') (tree.mapSpans f) place n g =
      answer (visitor token prunes look) tree place m g := by
  have hparent : ∀ p ∈ (none : Option Node), p.Placed r f :=
    fun p hp => absurd hp (Option.not_mem_none p)
  have hplace : place = place := rfl
  obtain ⟨hend, hnotes⟩ := (inStep_visitor token hstrict hprunes hlook).visit
    (fun _ hnode _ hc => hnode.child hc) htree hparent hplace h
  rw [answer, answer, Visitor.walk_mapSpans]
  simp only [Visitor.walk, hend, Notes.finish_parallel hnotes]

end StyleSense.Assist
