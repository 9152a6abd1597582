/-
# The way down to an answer

A walk gets to a node through the nodes around it, and each of them hands its
state to the next. A hover finds its answer at one node, a key that the cursor
touches. On the way there it has entered a style call: only that puts a call in
place, and without one no key is looked at.
-/

import Mathlib.Data.List.Nodup
import StyleSense.Proofs.Assist.Frames
import StyleSense.Proofs.Tree.Halting

namespace StyleSense.Assist

open StyleSense.Visitor

section

variable {σ α : Type} {tree : Node} {log trail outer inner : List (Step σ α)} {e s : Step σ α}

/-- In the walk with this log, `s` enters a node of the tree. -/
structure Enters (tree : Node) (log : List (Step σ α)) (s : Step σ α) : Prop where
  mem : s ∈ log
  enter : s.hook = .enter
  node : tree.at? s.path = some s.node

/-- The walk gets to `s` through the steps of the trail: the entering of each node
around it, the top first. -/
inductive Descent (tree : Node) (log : List (Step σ α)) : List (Step σ α) → Step σ α → Prop
  | top {s : Step σ α} (hs : Enters tree log s) (hpath : s.path = []) : Descent tree log [] s
  | child {trail : List (Step σ α)} {e s : Step σ α} {index : Nat} (h : Descent tree log trail e)
      (hs : Enters tree log s) (hpath : s.path = e.path ++ [index])
      (hstate : s.state = e.answer.handed e.state) : Descent tree log (trail ++ [e]) s

theorem Descent.enters (h : Descent tree log trail s) : Enters tree log s := by
  cases h with
  | top hs => exact hs
  | child _ hs => exact hs

/-- The end of a trail is entered from its last step. -/
theorem Descent.of_concat (h : Descent tree log (trail ++ [e]) s) :
    Descent tree log trail e ∧ s.state = e.answer.handed e.state ∧
      ∃ index, s.path = e.path ++ [index] := by
  generalize htrail : trail ++ [e] = whole at h
  cases h with
  | top => simp at htrail
  | child h _ hpath hstate =>
      have ⟨hinit, hlast⟩ := List.append_inj' htrail rfl
      cases hinit
      cases hlast
      exact ⟨h, hstate, _, hpath⟩

/-- The steps of a trail are entered on the way, at the places further up. -/
theorem Descent.of_mem (h : Descent tree log trail s) (he : e ∈ trail) :
    Enters tree log e ∧ e.path <+: s.path ∧ e.path ≠ s.path := by
  induction h with
  | top => cases he
  | @child trail last s index h hs hpath hstate ih =>
      have hlast : last.path <+: s.path ∧ last.path ≠ s.path := by simp [hpath]
      rcases List.mem_append.1 he with he | he
      · have ⟨henters, habove, _⟩ := ih he
        apply And.intro henters
        apply And.intro (habove.trans hlast.1)
        intro heq
        exact hlast.2 (hlast.1.eq_of_length_le (heq ▸ habove.length_le))
      · cases List.mem_singleton.1 he
        exact ⟨h.enters, hlast⟩

/-- The steps that enter the nodes around a place, the top first. -/
def around (log : List (Step σ α)) (path : Path) : List (Step σ α) :=
  (List.range path.length).filterMap fun n =>
    log.find? fun e => e.hook = .enter ∧ e.path = path.take n

/-- What enters the nodes around a place where nothing else is entered. -/
theorem around_concat (hunique : ∀ d ∈ log, d.hook = .enter → d.path = e.path → d = e)
    (he : Enters tree log e) (index : Nat) :
    around log (e.path ++ [index]) = around log e.path ++ [e] := by
  have hbefore : ∀ n ∈ List.range e.path.length,
      (log.find? fun d => d.hook = .enter ∧ d.path = (e.path ++ [index]).take n) =
        log.find? fun d => d.hook = .enter ∧ d.path = e.path.take n := by
    intro n hn
    rw [List.take_append_of_le_length (List.mem_range.1 hn).le]
  have hlast : (log.find? fun d => d.hook = .enter ∧
      d.path = (e.path ++ [index]).take e.path.length) = some e := by
    rw [List.take_left]
    cases hfind : log.find? fun d => d.hook = .enter ∧ d.path = e.path with
    | none =>
        have hnot := List.find?_eq_none.1 hfind e he.mem
        simp [he.enter] at hnot
    | some d =>
        have hd := List.find?_some hfind
        rw [decide_eq_true_eq] at hd
        rw [hunique d (List.mem_of_find?_eq_some hfind) hd.1 hd.2]
  rw [around, List.length_append, List.length_singleton, List.range_succ, List.filterMap_append,
    List.filterMap_congr hbefore]
  simp only [List.filterMap_cons, List.filterMap_nil, hlast, around]

/-- Where no node is entered twice, a descent has the steps around its end. -/
theorem Descent.eq_around
    (hunique : ∀ d ∈ log, ∀ e ∈ log, d.hook = .enter → e.hook = .enter → d.path = e.path → d = e)
    (h : Descent tree log trail s) : trail = around log s.path := by
  induction h with
  | top hs hpath => simp [around, hpath]
  | @child trail e s index h hs hpath hstate ih =>
      have he := h.enters
      rw [hpath, around_concat _ he, ← ih]
      intro d hd henter
      exact hunique d hd e he.mem henter he.enter

/-- A trail goes through each of its steps. -/
theorem Descent.of_append (h : Descent tree log (outer ++ e :: inner) s) :
    Descent tree log outer e := by
  induction inner using List.reverseRecOn generalizing s with
  | nil => exact h.of_concat.1
  | append_singleton inner last ih =>
      rw [← List.cons_append, ← List.append_assoc] at h
      exact ih h.of_concat.1

end

section

variable {α β : Type} {token : Token} {prunes : Node → Bool}
  {look : Node → Option Node → α → Notes β → Flow α × Notes β} {tree : Node} {start : α}
  {notes : Notes β} {s : Step (Notes β) α}

/-- The hook that leaves nodes out puts no state in place. -/
theorem handed_of_wildcard (hs : s ∈ (visitor token prunes look).steps tree none start notes)
    (hwild : s.hook = .wildcard) (state : α) : s.answer.handed state = state := by
  have hmakes := ((threaded_visit _ tree none start notes).2 s hs).1
  rw [Makes, hwild] at hmakes
  have hanswer : s.answer = if (!alwaysVisited s.node && prunes s.node) = true then .skip
    else .continue := congrArg Prod.fst hmakes
  rw [hanswer]
  split <;> rfl

/-- A node that is entered received what its parent handed down. -/
theorem entered_from (hs : s ∈ (visitor token prunes look).steps tree none start notes)
    (henter : s.hook = .enter) {above : Path} {index : Nat} (hpath : s.path = above ++ [index]) :
    ∃ e ∈ (visitor token prunes look).steps tree none start notes,
      e.hook = .enter ∧ e.path = above ∧ tree.at? above = some e.node ∧
        s.state = e.answer.handed e.state := by
  have hcourse := course_visit (visitor token prunes look) tree none start notes
  obtain ⟨e, he, hehook, hepath, w, hw, hwhook, -, hstate⟩ :=
    hcourse.entered_from (List.mem_map_of_mem hs) henter hpath
  have hnode := hcourse.node_eq he
  obtain ⟨e, hmem, rfl⟩ := List.mem_map.1 he
  obtain ⟨w, hwmem, rfl⟩ := List.mem_map.1 hw
  refine ⟨e, hmem, hehook, hepath, hepath ▸ hnode, hstate.trans ?_⟩
  exact handed_of_wildcard hwmem hwhook _

/-- What is answered for a node that notes have nothing to say of. -/
theorem answer_eq_look (hs : s ∈ (visitor token prunes look).steps tree none start notes)
    (henter : s.hook = .enter)
    (hquiet : ∀ noted : Notes β, noted.enter (α := α) s.node = (none, noted)) :
    s.answer = (look s.node s.parent s.state s.memory).1 := by
  have hmakes := ((threaded_visit _ tree none start notes).2 s hs).1
  rw [Makes, henter] at hmakes
  have hanswer := congrArg Prod.fst hmakes
  simp only [visitor, hquiet] at hanswer
  exact hanswer

/-- Notes may be done with a node that is entered; otherwise it is looked at. -/
theorem answer_of_enter (hmakes : (visitor token prunes look).Makes s) (henter : s.hook = .enter) :
    s.answer = .skip ∨ s.answer = .exit ∨
      ∃ noted, s.answer = (look s.node s.parent s.state noted).1 := by
  rw [Makes, henter] at hmakes
  simp only [visitor] at hmakes
  rcases hnoted : s.memory.enter (α := α) s.node with ⟨flow | flow, noted⟩ <;>
    rw [hnoted] at hmakes
  · exact .inr (.inr ⟨noted, congrArg Prod.fst hmakes⟩)
  · have hflow : s.answer = flow := congrArg Prod.fst hmakes
    rw [hflow]
    exact (Notes.ends_of_enter hnoted).imp_right .inl

/-- Only looking at a node finds something. -/
theorem looked_of_found_ne (hmakes : (visitor token prunes look).Makes s)
    (h : s.next.found ≠ s.memory.found) :
    s.hook = .enter ∧ ∃ noted, s.memory.enter (α := α) s.node = (none, noted) ∧
      noted.found = s.memory.found ∧ (s.answer, s.next) = look s.node s.parent s.state noted := by
  rw [Makes] at hmakes
  split at hmakes
  · exact absurd (congrArg (·.2.found) hmakes) h
  next henter =>
    have hfound := s.memory.found_enter (α := α) s.node
    simp only [visitor] at hmakes
    rcases hnoted : s.memory.enter (α := α) s.node with ⟨flow | flow, noted⟩ <;>
      rw [hnoted] at hfound hmakes
    · exact ⟨henter, noted, rfl, hfound, hmakes⟩
    · exact absurd ((congrArg (·.2.found) hmakes).trans hfound) h
  · exact absurd ((congrArg (·.2.found) hmakes).trans (s.memory.found_leave s.node)) h

/-- The top of the tree receives what the walk starts with. -/
theorem state_of_top (hs : s ∈ (visitor token prunes look).steps tree none start notes)
    (henter : s.hook = .enter) (hpath : s.path = []) : s.state = start := by
  have hcourse := course_visit (visitor token prunes look) tree none start notes
  have hmem : s.toEvent ∈ (visitor token prunes look).events tree none start notes :=
    List.mem_map_of_mem hs
  have ⟨w, hw, hwild, hwpath⟩ := hcourse.exists_wildcard (List.ne_nil_of_mem hmem)
  have hreceived := (hcourse.state_eq hw hmem hwild henter (hpath.trans hwpath.symm)).1
  rw [hcourse.state_eq_of_root hw hwild hwpath] at hreceived
  obtain ⟨w, hwmem, rfl⟩ := List.mem_map.1 hw
  exact hreceived.trans (handed_of_wildcard hwmem hwild start)

/-- No node is entered twice. -/
theorem enter_unique {d e : Step (Notes β) α}
    (hd : d ∈ (visitor token prunes look).steps tree none start notes)
    (he : e ∈ (visitor token prunes look).steps tree none start notes)
    (hdenter : d.hook = .enter) (heenter : e.hook = .enter) (hpath : d.path = e.path) : d = e := by
  have hpairs := (course_visit (visitor token prunes look) tree none start notes).pairwise_key
  rw [events, List.pairwise_map] at hpairs
  have hkeys : (((visitor token prunes look).steps tree none start notes).map
      fun s => s.toEvent.key).Nodup := List.pairwise_map.2 hpairs
  apply List.inj_on_of_nodup_map hkeys hd he
  rw [Event.key, Event.key, hdenter, heenter, hpath]

/-- Every step that enters a node has a descent. -/
theorem exists_descent (hs : s ∈ (visitor token prunes look).steps tree none start notes)
    (henter : s.hook = .enter) :
    ∃ trail, Descent tree ((visitor token prunes look).steps tree none start notes) trail s := by
  have henters {s : Step (Notes β) α}
      (hs : s ∈ (visitor token prunes look).steps tree none start notes)
      (henter : s.hook = .enter) :
      Enters tree ((visitor token prunes look).steps tree none start notes) s :=
    ⟨hs, henter, (course_visit _ tree none start notes).node_eq (List.mem_map_of_mem hs)⟩
  -- from the place up to the top
  generalize hpath : s.path = path
  induction path using List.reverseRecOn generalizing s with
  | nil => exact ⟨[], .top (henters hs henter) hpath⟩
  | append_singleton above index ih =>
      have ⟨e, he, hehook, hepath, _, hstate⟩ := entered_from hs henter hpath
      have ⟨trail, hdescent⟩ := ih he hehook hepath
      exact ⟨trail ++ [e], .child hdescent (henters hs henter) (hepath ▸ hpath) hstate⟩

end

end StyleSense.Assist
