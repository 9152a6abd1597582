/-
# What a walk hands down

A node learns from its ancestors and from nobody else: the state it receives is
the last one that its parent put in place, and it is left out exactly if one of
its ancestors said so. The calls below a node are again a course, of that node
(`Course.course_under`), so each of these facts is read off at one node and holds at
all paths.

Two walks whose answers differ only at some places, and below them, make the
same calls everywhere else (`Course.outside_eq`).
-/

import StyleSense.Proofs.Tree.Course

namespace StyleSense

namespace Visitor

variable {σ α : Type}

/-- The call as the child with this index sees it, if it is made in the child. -/
def Event.within? (index : Nat) (e : Event α) : Option (Event α) :=
  match e.path with
  | [] => none
  | i :: path => if i = index then some { e with path } else none

/-- The calls made in the child with this index. -/
def within (index : Nat) (log : List (Event α)) : List (Event α) :=
  log.filterMap (·.within? index)

/-- The calls made in the node at a path. -/
def under : Path → List (Event α) → List (Event α)
  | [], log => log
  | i :: path, log => under path (within i log)

/-- The call as it is seen from further up. -/
def Event.beneath (above : Path) (e : Event α) : Event α :=
  { e with path := above ++ e.path }

/-- The call as the node itself sees it. -/
def Event.local (e : Event α) : Event α :=
  { e with path := [] }

theorem Event.beneath_local (e : Event α) : e.local.beneath e.path = e := by
  rw [beneath, Event.local, List.append_nil]

theorem Event.within?_eq_some_iff {index : Nat} {e f : Event α} :
    e.within? index = some f ↔ f.below index = e := by
  obtain ⟨call, path, answer⟩ := e
  obtain ⟨call', path', answer'⟩ := f
  cases path with
  | nil => simp [within?, below]
  | cons i path =>
      simp only [within?, below, Option.ite_none_right_eq_some, Option.some.injEq,
        Event.mk.injEq, List.cons.injEq]
      constructor
      · rintro ⟨rfl, rfl, rfl, rfl⟩
        exact ⟨rfl, ⟨rfl, rfl⟩, rfl⟩
      · rintro ⟨rfl, ⟨rfl, rfl⟩, rfl⟩
        exact ⟨rfl, rfl, rfl, rfl⟩

theorem mem_within {index : Nat} {e : Event α} {log : List (Event α)} :
    e ∈ within index log ↔ e.below index ∈ log := by
  rw [within, List.mem_filterMap]
  constructor
  · rintro ⟨f, hf, he⟩
    rwa [Event.within?_eq_some_iff.1 he]
  · intro h
    exact ⟨_, h, Event.within?_eq_some_iff.2 rfl⟩

theorem mem_under {path : Path} {e : Event α} {log : List (Event α)} :
    e ∈ under path log ↔ e.beneath path ∈ log := by
  induction path generalizing log with
  | nil => rfl
  | cons i path ih =>
      rw [under, ih, mem_within]
      rfl

theorem local_mem_under {e : Event α} {log : List (Event α)} (h : e ∈ log) :
    e.local ∈ under e.path log := by
  rwa [mem_under, e.beneath_local]

theorem under_append (above below : Path) (log : List (Event α)) :
    under (above ++ below) log = under below (under above log) := by
  induction above generalizing log with
  | nil => rfl
  | cons i above ih => exact ih (within i log)

theorem within_map_below (index j : Nat) (log : List (Event α)) :
    within index (log.map (·.below j)) = if j = index then log else [] := by
  rw [within, List.filterMap_map]
  split
  · next h =>
      subst h
      refine Eq.trans (List.filterMap_congr fun e _ => ?_) List.filterMap_some
      exact Event.within?_eq_some_iff.2 rfl
  · next h => exact List.filterMap_eq_nil_iff.2 fun e _ => if_neg h

theorem within_flatMap_zipIdx {β : Type} (xs : List β) (start index : Nat)
    (logs : Nat → List (Event α)) :
    within index ((xs.zipIdx start).flatMap fun x => (logs x.2).map (·.below x.2)) =
      if start ≤ index ∧ index < start + xs.length then logs index else [] := by
  induction xs generalizing start with
  | nil => exact (if_neg (by simp)).symm
  | cons x xs ih =>
      rw [List.zipIdx_cons, List.flatMap_cons, within, List.filterMap_append]
      change within index ((logs start).map (·.below start)) ++ within index _ = _
      rw [ih (start + 1), within_map_below, List.length_cons]
      by_cases h : start = index
      · subst h
        rw [if_pos rfl, if_neg (by omega), if_pos (by omega), List.append_nil]
      · rw [if_neg h, List.nil_append]
        exact if_congr (by omega) rfl rfl

theorem within_childEvents (n : Node) (index : Nat) (logs : Nat → List (Event α)) :
    within index (childEvents n logs) = if index < n.children.length then logs index else [] := by
  rw [childEvents, within_flatMap_zipIdx]
  exact if_congr (by omega) rfl rfl

theorem path_ne_nil_of_mem_childEvents {n : Node} {logs : Nat → List (Event α)} {e : Event α}
    (h : e ∈ childEvents n logs) : e.path ≠ [] := by
  obtain ⟨x, -, he⟩ := List.mem_flatMap.1 h
  obtain ⟨f, -, rfl⟩ := List.mem_map.1 he
  exact List.cons_ne_nil _ _

/-- The calls on the node itself are in none of its children. -/
theorem within_through (n : Node) (parent : Option Node) (state handed final : α)
    (a b : Flow α) (logs : Nat → List (Event α)) (last : Option (Flow α)) (index : Nat) :
    within index ([.wildcard n state a, .enter n parent handed b] ++ childEvents n logs ++
      last.toList.map (.leave n final)) =
        if index < n.children.length then logs index else [] := by
  rw [← within_childEvents]
  unfold within
  rw [List.filterMap_append, List.filterMap_append]
  cases last <;> simp [Event.within?, Event.wildcard, Event.enter, Event.leave]

/-- What the calls of a visit have to do with the node, when its hooks answer
`a` and `b`. -/
structure Shape (n : Node) (parent : Option Node) (state : α) (halt : Option Halt)
    (log : List (Event α)) (a b : Flow α) : Prop where
  here : ∀ e ∈ log, e.path = [] →
    e = .wildcard n state a ∨
      a.GoesOn ∧ (e = .enter n parent (a.handed state) b ∨
        b.GoesOn ∧ ∃ c, e = .leave n (b.handed (a.handed state)) c)
  inside : ∀ index, within index log ≠ [] →
    a.GoesOn ∧ b.GoesOn ∧
      ∃ c ends, n.children[index]? = some c ∧
        (a.ignored ++ b.ignored).any (·.covers c.1) = false ∧
        Course c.2 (some n) (b.handed (a.handed state)) ends (within index log) ∧
        (halt = none → ends = none)

theorem Course.shape {n : Node} {parent : Option Node} {state : α} {halt : Option Halt}
    {log : List (Event α)} (h : Course n parent state halt log) :
    ∃ a b, Shape n parent state halt log a b := by
  cases h with
  | canceled => exact ⟨.continue, .continue, nofun, fun _ h => absurd rfl h⟩
  | @first _ _ _ a ha =>
      refine ⟨a, .continue, ?_, fun _ h => absurd rfl h⟩
      rintro e he -
      exact .inl (List.mem_singleton.1 he)
  | @second _ _ _ a b ha hb =>
      refine ⟨a, b, ?_, fun _ h => absurd rfl h⟩
      rintro e he -
      rcases List.mem_pair.1 he with rfl | rfl
      · exact .inl rfl
      · exact .inr ⟨ha, .inl rfl⟩
  | @through _ _ _ a b halt halts logs last ha hb hkept hcourse hall hlast =>
      refine ⟨a, b, fun e he hpath => ?_, fun index hne => ?_⟩
      · rcases List.mem_append.1 he with he | hlate
        · rcases List.mem_append.1 he with hearly | hbelow
          · rcases List.mem_pair.1 hearly with rfl | rfl
            · exact .inl rfl
            · exact .inr ⟨ha, .inl rfl⟩
          · exact absurd hpath (path_ne_nil_of_mem_childEvents hbelow)
        · obtain ⟨c, -, rfl⟩ := List.mem_map.1 hlate
          exact .inr ⟨ha, .inr ⟨hb, c, rfl⟩⟩
      · rw [within_through] at hne ⊢
        obtain ⟨hindex, hlog⟩ : index < n.children.length ∧ logs index ≠ [] := by
          simpa using hne
        have hx : (n.children[index], index) ∈ n.children.zipIdx :=
          List.mk_mem_zipIdx_iff_getElem?.2 (List.getElem?_eq_getElem hindex)
        have hcovers := hkept _ hx hlog
        rw [if_pos hindex]
        exact ⟨ha, hb, _, _, List.getElem?_eq_getElem hindex, hcovers, hcourse _ hx hlog,
          fun hnone => (hall hnone _ hx hcovers).2⟩

section

variable {n : Node} {parent : Option Node} {state : α} {halt : Option Halt}
  {log : List (Event α)}

/-- The calls at a path and below it are those of a visit of the node there. -/
theorem Course.course_under (h : Course n parent state halt log) {path : Path}
    (hne : under path log ≠ []) :
    ∃ c above received ends, n.at? path = some c ∧
      above = (if path = [] then parent else n.at? path.dropLast) ∧
      Course c above received ends (under path log) ∧ (halt = none → ends = none) := by
  induction path generalizing n parent state halt log with
  | nil => exact ⟨n, parent, state, halt, rfl, rfl, h, id⟩
  | cons i path ih =>
      obtain ⟨a, b, hshape⟩ := h.shape
      have hwithin : within i log ≠ [] := by
        intro hnil
        have hall : ∀ path, under path ([] : List (Event α)) = [] := by
          intro path
          induction path with
          | nil => rfl
          | cons j path ih => exact ih
        rw [under, hnil] at hne
        exact hne (hall path)
      obtain ⟨-, -, c, ends, hc, -, hcourse, hends⟩ := hshape.inside i hwithin
      obtain ⟨d, above, received, ends', hd, habove, hbelow, hends'⟩ := ih hcourse hne
      refine ⟨d, above, received, ends', (Node.at?_cons hc path).trans hd, ?_, hbelow,
        fun hnone => hends' (hends hnone)⟩
      rw [habove, if_neg (List.cons_ne_nil i path)]
      cases path with
      | nil => rfl
      | cons j path => exact (Node.at?_cons hc _).symm

/-- What the calls at the place of a call have to do with the node there. -/
theorem Course.shape_at (h : Course n parent state halt log) {e : Event α} (he : e ∈ log) :
    ∃ c above received ends a b, n.at? e.path = some c ∧
      above = (if e.path = [] then parent else n.at? e.path.dropLast) ∧
      Shape c above received ends (under e.path log) a b := by
  obtain ⟨c, above, received, ends, hc, habove, hcourse, -⟩ :=
    h.course_under (List.ne_nil_of_mem (local_mem_under he))
  obtain ⟨a, b, hshape⟩ := hcourse.shape
  exact ⟨c, above, received, ends, a, b, hc, habove, hshape⟩

section

variable {a b : Flow α} {e : Event α} (h : Shape n parent state halt log a b) (he : e ∈ log)
  (hpath : e.path = [])

include h he hpath

theorem Shape.node_eq : e.node = n := by
  rcases h.here e he hpath with rfl | ⟨-, rfl | ⟨-, _, rfl⟩⟩ <;> rfl

theorem Shape.wildcard_eq (hhook : e.hook = .wildcard) : e = .wildcard n state a := by
  rcases h.here e he hpath with rfl | ⟨-, rfl | ⟨-, _, rfl⟩⟩
  · rfl
  · cases hhook
  · cases hhook

theorem Shape.enter_eq (hhook : e.hook = .enter) :
    a.GoesOn ∧ e = .enter n parent (a.handed state) b := by
  rcases h.here e he hpath with rfl | ⟨ha, rfl | ⟨-, _, rfl⟩⟩
  · cases hhook
  · exact ⟨ha, rfl⟩
  · cases hhook

theorem Shape.leave_eq (hhook : e.hook = .leave) :
    a.GoesOn ∧ b.GoesOn ∧ ∃ c, e = .leave n (b.handed (a.handed state)) c := by
  rcases h.here e he hpath with rfl | ⟨ha, rfl | ⟨hb, c, rfl⟩⟩
  · cases hhook
  · cases hhook
  · exact ⟨ha, hb, c, rfl⟩

end

/-- A call is about the node at its path. -/
theorem Course.node_eq (h : Course n parent state halt log) {e : Event α} (he : e ∈ log) :
    n.at? e.path = some e.node := by
  obtain ⟨c, above, received, ends, a, b, hc, -, hshape⟩ := h.shape_at he
  rw [hc, ← hshape.node_eq (local_mem_under he) rfl]
  rfl

/-- The parent that `enter` is given is the one that the node has. -/
theorem Course.parent_eq (h : Course n parent state halt log) {e : Event α} (he : e ∈ log)
    (hhook : e.hook = .enter) :
    e.parent = if e.path = [] then parent else n.at? e.path.dropLast := by
  obtain ⟨c, above, received, ends, a, b, -, habove, hshape⟩ := h.shape_at he
  rw [← habove]
  exact congrArg (·.parent) (hshape.enter_eq (local_mem_under he) rfl hhook).2

theorem Course.state_eq_of_root (h : Course n parent state halt log) {e : Event α}
    (he : e ∈ log) (hhook : e.hook = .wildcard) (hpath : e.path = []) : e.state = state := by
  obtain ⟨a, b, hshape⟩ := h.shape
  exact congrArg (·.state) (hshape.wildcard_eq he hpath hhook)

/-- What the two early hooks of a node put in place is what the second one, the
late hook and the children receive. -/
theorem Course.state_eq (h : Course n parent state halt log) {w s : Event α} (hw : w ∈ log)
    (hs : s ∈ log) (hwild : w.hook = .wildcard) (henter : s.hook = .enter)
    (hpath : s.path = w.path) :
    s.state = w.answer.handed w.state ∧
      ∀ e ∈ log, (e.hook = .leave ∧ e.path = w.path ∨
          e.hook = .wildcard ∧ ∃ index, e.path = w.path ++ [index]) →
        e.state = s.answer.handed s.state := by
  obtain ⟨c, above, received, ends, a, b, -, -, hshape⟩ := h.shape_at hw
  have hw' := hshape.wildcard_eq (local_mem_under hw) rfl hwild
  have hs' := (hshape.enter_eq (e := s.local) (hpath ▸ local_mem_under hs) rfl henter).2
  have hstate : s.state = a.handed received := congrArg (·.state) hs'
  have hanswer : s.answer = b := congrArg (·.answer) hs'
  refine ⟨?_, fun e he hcases => ?_⟩
  · rw [hstate, show w.answer = a from congrArg (·.answer) hw',
      show w.state = received from congrArg (·.state) hw']
  · rw [hstate, hanswer]
    have hlocal := local_mem_under he
    rcases hcases with ⟨hleave, hepath⟩ | ⟨hchild, index, hepath⟩
    · rw [hepath] at hlocal
      obtain ⟨-, -, d, heq⟩ := hshape.leave_eq hlocal rfl hleave
      exact congrArg (·.state) heq
    · rw [hepath, under_append] at hlocal
      obtain ⟨-, -, d, ends', -, -, hcourse, -⟩ := hshape.inside index (List.ne_nil_of_mem hlocal)
      exact hcourse.state_eq_of_root (e := e.local) hlocal hchild rfl

/-- A visit that makes calls begins with the node. -/
theorem Course.exists_wildcard (h : Course n parent state halt log) (hne : log ≠ []) :
    ∃ w ∈ log, w.hook = .wildcard ∧ w.path = [] := by
  cases h with
  | canceled => exact absurd rfl hne
  | first => exact ⟨_, List.mem_cons_self, rfl, rfl⟩
  | second => exact ⟨_, List.mem_cons_self, rfl, rfl⟩
  | through => exact ⟨_, List.mem_cons_self, rfl, rfl⟩

/-- A visit that makes calls in a child has entered the node. -/
theorem Course.exists_enter (h : Course n parent state halt log) {index : Nat}
    (hne : within index log ≠ []) : ∃ e ∈ log, e.hook = .enter ∧ e.path = [] := by
  cases h with
  | canceled => exact absurd rfl hne
  | first => exact absurd rfl hne
  | second => exact absurd rfl hne
  | through => exact ⟨_, List.mem_cons_of_mem _ List.mem_cons_self, rfl, rfl⟩

/-- A child that is entered receives what its parent handed down when that was
entered, after what its own first hook put in place. -/
theorem Course.entered_from (h : Course n parent state halt log) {s : Event α} (hs : s ∈ log)
    (henter : s.hook = .enter) {above : Path} {index : Nat} (hpath : s.path = above ++ [index]) :
    ∃ e ∈ log, e.hook = .enter ∧ e.path = above ∧
      ∃ w ∈ log, w.hook = .wildcard ∧ w.path = s.path ∧
        s.state = w.answer.handed (e.answer.handed e.state) := by
  have hinside : under (above ++ [index]) log ≠ [] :=
    List.ne_nil_of_mem (hpath ▸ local_mem_under hs)
  have hwithin : within index (under above log) ≠ [] := by
    rwa [under_append] at hinside
  have habove : under above log ≠ [] := by
    intro hnil
    rw [hnil] at hwithin
    exact hwithin rfl
  obtain ⟨c, up, received, ends, -, -, hcourse, -⟩ := h.course_under habove
  obtain ⟨d, up', received', ends', -, -, hchild, -⟩ := h.course_under hinside
  obtain ⟨v, hv, hvhook, hvpath⟩ := hcourse.exists_wildcard habove
  obtain ⟨e, he, hehook, hepath⟩ := hcourse.exists_enter hwithin
  obtain ⟨w, hw, hwhook, hwpath⟩ := hchild.exists_wildcard hinside
  have hv' := mem_under.1 hv
  have he' := mem_under.1 he
  have hw' := mem_under.1 hw
  have hplace : (e.beneath above).path = above := by rw [Event.beneath, hepath, List.append_nil]
  have hplace' : (w.beneath (above ++ [index])).path = s.path := by
    rw [Event.beneath, hwpath, List.append_nil, hpath]
  have hvplace : (v.beneath above).path = above := by rw [Event.beneath, hvpath, List.append_nil]
  refine ⟨_, he', hehook, hplace, _, hw', hwhook, hplace', ?_⟩
  rw [(h.state_eq hw' hs hwhook henter hplace'.symm).1,
    (h.state_eq hv' he' hvhook hehook (hplace.trans hvplace.symm)).2 _ hw'
      (.inr ⟨hwhook, index, by rw [hplace', hpath, hvplace]⟩)]

/-- The call leaves out the child with this index: the whole node, or the edge
to the child. -/
def Event.Suppresses (e : Event α) (index : Nat) : Prop :=
  e.hook ≠ .leave ∧
    (e.answer = .skip ∨
      ∃ c, e.node.children[index]? = some c ∧ e.answer.ignored.any (·.covers c.1) = true)

/-- A call at a proper ancestor leaves out the way to the path. -/
def Suppressed (log : List (Event α)) (path : Path) : Prop :=
  ∃ above index below, path = above ++ index :: below ∧
    ∃ e ∈ log, e.path = above ∧ e.Suppresses index

/-- The hook is called at the path, and answers so. -/
def Answered (log : List (Event α)) (hook : Hook) (path : Path) (flow : Flow α) : Prop :=
  ∃ e ∈ log, e.hook = hook ∧ e.path = path ∧ e.answer = flow

theorem answered_under (path : Path) {hook : Hook} {flow : Flow α} :
    Answered (under path log) hook [] flow ↔ Answered log hook path flow := by
  constructor
  · rintro ⟨e, he, hhook, hpath, hanswer⟩
    refine ⟨_, mem_under.1 he, hhook, ?_, hanswer⟩
    rw [Event.beneath, hpath, List.append_nil]
  · rintro ⟨e, he, hhook, rfl, hanswer⟩
    exact ⟨e.local, local_mem_under he, hhook, rfl, hanswer⟩

theorem answered_within {index : Nat} {path : Path} {hook : Hook} {flow : Flow α}
    (h : Answered (within index log) hook path flow) : Answered log hook (index :: path) flow := by
  obtain ⟨e, he, hhook, rfl, hanswer⟩ := h
  exact ⟨_, mem_within.1 he, hhook, rfl, hanswer⟩

theorem suppressed_within {index : Nat} {path : Path} (h : Suppressed (within index log) path) :
    Suppressed log (index :: path) := by
  obtain ⟨above, j, below, rfl, e, he, rfl, hsuppresses⟩ := h
  exact ⟨index :: e.path, j, below, rfl, _, mem_within.1 he, rfl, hsuppresses⟩

/-- A node that makes calls in a child has not left it out. -/
theorem Shape.not_suppresses {a b : Flow α} (h : Shape n parent state halt log a b)
    {index : Nat} (hne : within index log ≠ []) {e : Event α} (he : e ∈ log)
    (hpath : e.path = []) : ¬e.Suppresses index := by
  rintro ⟨hhook, hsuppresses⟩
  obtain ⟨ha, hb, c, -, hc, hcovers, -, -⟩ := h.inside index hne
  rw [List.any_append, Bool.or_eq_false_iff] at hcovers
  obtain ⟨hgoes, hkept⟩ :
      e.answer.GoesOn ∧ e.answer.ignored.any (·.covers c.1) = false := by
    rcases h.here e he hpath with rfl | ⟨-, rfl | ⟨-, _, rfl⟩⟩
    · exact ⟨ha, hcovers.1⟩
    · exact ⟨hb, hcovers.2⟩
    · exact absurd rfl hhook
  rcases hsuppresses with hskip | ⟨d, hd, hcovered⟩
  · exact hgoes.1 hskip
  · rw [h.node_eq he hpath, hc] at hd
    cases hd
    rw [hkept] at hcovered
    cases hcovered

/-- No call is made where an ancestor left out the way. -/
theorem Course.not_suppressed (h : Course n parent state halt log) {e : Event α} (he : e ∈ log) :
    ¬Suppressed log e.path := by
  rintro ⟨above, index, below, hpath, f, hf, rfl, hsuppresses⟩
  obtain ⟨c, up, received, ends, a, b, -, -, hshape⟩ := h.shape_at hf
  have hinside : ({ e with path := below } : Event α) ∈
      within index (under f.path log) := by
    rw [mem_within, mem_under]
    have heq : ({ e with path := f.path ++ index :: below } : Event α) = e := by rw [← hpath]
    exact heq ▸ he
  exact hshape.not_suppresses (List.ne_nil_of_mem hinside) (local_mem_under hf) rfl hsuppresses

instance (flow : Flow α) : Decidable flow.GoesOn :=
  match flow with
  | .skip => .isFalse fun h => h.1 rfl
  | .exit => .isFalse fun h => h.2 rfl
  | .continue | .replace _ | .replaceIgnoring _ _ => .isTrue ⟨nofun, nofun⟩

/-- The calls of a visit to the end, by the answers of the three hooks and the
calls on the children. -/
def fullLog (n : Node) (parent : Option Node) (state : α) (a b c : Flow α)
    (logs : Nat → List (Event α)) : List (Event α) :=
  .wildcard n state a ::
    if a.GoesOn then
      .enter n parent (a.handed state) b ::
        if b.GoesOn then childEvents n logs ++ [.leave n (b.handed (a.handed state)) c] else []
    else []

/-- In a visit to the end the early hooks skip the node, or all children that
they do not leave out are visited to the end. -/
structure Full (n : Node) (parent : Option Node) (state : α) (log : List (Event α))
    (a b c : Flow α) (logs : Nat → List (Event α)) : Prop where
  log_eq : log = fullLog n parent state a b c logs
  first : ¬a.GoesOn → a = .skip
  second : ¬b.GoesOn → b = .skip
  children : a.GoesOn → b.GoesOn → ∀ x ∈ n.children.zipIdx,
    (a.ignored ++ b.ignored).any (·.covers x.1.1) = true ∧ logs x.2 = [] ∨
      (a.ignored ++ b.ignored).any (·.covers x.1.1) = false ∧
        Course x.1.2 (some n) (b.handed (a.handed state)) none (logs x.2)

theorem eq_skip_of_halt?_eq_none {flow : Flow α} (hhalt : flow.halt? = none)
    (h : ¬flow.GoesOn) : flow = .skip := by
  cases flow with
  | skip => rfl
  | exit => cases hhalt
  | _ => exact absurd ⟨nofun, nofun⟩ h

theorem Course.full (h : Course n parent state none log) :
    ∃ a b c logs, Full n parent state log a b c logs := by
  generalize hhalt : (none : Option Halt) = halt at h
  cases h with
  | canceled => cases hhalt
  | @first _ _ _ a ha =>
      exact ⟨a, .continue, .continue, fun _ => [], by rw [fullLog, if_neg ha],
        eq_skip_of_halt?_eq_none hhalt.symm, eq_skip_of_halt?_eq_none rfl,
        fun hgoes => absurd hgoes ha⟩
  | @second _ _ _ a b ha hb =>
      exact ⟨a, b, .continue, fun _ => [], by rw [fullLog, if_pos ha, if_neg hb],
        absurd ha, eq_skip_of_halt?_eq_none hhalt.symm, fun _ hgoes => absurd hgoes hb⟩
  | @through _ _ _ a b _ halts logs last ha hb hkept hcourse hall hlast =>
      obtain ⟨c, rfl⟩ := Option.isSome_iff_exists.1 (hlast hhalt.symm)
      refine ⟨a, b, c, logs, by rw [fullLog, if_pos ha, if_pos hb]; rfl, absurd ha, absurd hb,
        fun _ _ x hx => ?_⟩
      cases hcovers : (a.ignored ++ b.ignored).any (·.covers x.1.1) with
      | true =>
          refine .inl ⟨rfl, by_contra fun hne => ?_⟩
          rw [hkept x hx hne] at hcovers
          cases hcovers
      | false =>
          obtain ⟨hne, hends⟩ := hall hhalt.symm x hx hcovers
          have hchild := hcourse x hx hne
          rw [hends] at hchild
          exact .inr ⟨rfl, hchild⟩

/-- Which hooks of the visited node are called in a visit to the end. -/
theorem Course.answered_iff (h : Course n parent state none log) :
    (∃ flow, Answered log .wildcard [] flow) ∧
      ((∃ flow, Answered log .enter [] flow) ↔ ¬Answered log .wildcard [] .skip) ∧
      ((∃ flow, Answered log .leave [] flow) ↔
        ¬Answered log .wildcard [] .skip ∧ ¬Answered log .enter [] .skip) := by
  have hchildren : ∀ hook (flow : Flow α) logs, ¬Answered (childEvents n logs) hook [] flow := by
    rintro hook flow logs ⟨e, he, -, hpath, -⟩
    exact path_ne_nil_of_mem_childEvents he hpath
  have hcons : ∀ (e : Event α) log hook flow, Answered (e :: log) hook [] flow ↔
      (e.hook = hook ∧ e.path = [] ∧ e.answer = flow) ∨ Answered log hook [] flow := by
    intro e log hook flow
    simp only [Answered, List.exists_mem_cons_iff]
  have happend : ∀ (log log' : List (Event α)) hook flow, Answered (log ++ log') hook [] flow ↔
      Answered log hook [] flow ∨ Answered log' hook [] flow := by
    intro log log' hook flow
    simp only [Answered, List.mem_append, or_and_right, exists_or]
  have hnil : ∀ hook (flow : Flow α), ¬Answered [] hook [] flow := nofun
  obtain ⟨a, b, c, logs, rfl, hfirst, hsecond, -⟩ := h.full
  unfold fullLog
  by_cases ha : a.GoesOn
  · by_cases hb : b.GoesOn
    · rw [if_pos ha, if_pos hb]
      simp [hcons, happend, hchildren, hnil, ha.1, hb.1, Event.wildcard, Event.enter, Event.leave]
    · rw [if_pos ha, if_neg hb, hsecond hb]
      simp [hcons, hnil, ha.1, Event.wildcard, Event.enter]
  · rw [if_neg ha, hfirst ha]
    simp [hcons, hnil, Event.wildcard]

/-- In a visit to the end each place is reached that no ancestor left out. -/
theorem Course.reaches (h : Course n parent state none log) {path : Path} {m : Node}
    (hm : n.at? path = some m) (hkept : ¬Suppressed log path) :
    ∃ flow, Answered log .wildcard path flow := by
  induction path generalizing n parent state log with
  | nil => exact h.answered_iff.1
  | cons i path ih =>
      obtain ⟨c, hc, hm⟩ := Option.bind_eq_some_iff.1 hm
      have hx : (c, i) ∈ n.children.zipIdx := List.mk_mem_zipIdx_iff_getElem?.2 hc
      have hnot : ∀ e ∈ log, e.path = [] → ¬e.Suppresses i := fun e he hpath hsuppresses =>
        hkept ⟨[], i, path, rfl, e, he, hpath, hsuppresses⟩
      obtain ⟨a, b, l, logs, rfl, hfirst, hsecond, hchildren⟩ := h.full
      unfold fullLog at hnot
      have hw := hnot (.wildcard n state a) List.mem_cons_self rfl
      have ha : a.GoesOn := by_contra fun ha => hw ⟨nofun, .inl (hfirst ha)⟩
      rw [if_pos ha] at hnot
      have hs := hnot (.enter n parent (a.handed state) b)
        (List.mem_cons_of_mem _ List.mem_cons_self) rfl
      have hb : b.GoesOn := by_contra fun hb => hs ⟨nofun, .inl (hsecond hb)⟩
      rcases hchildren ha hb _ hx with ⟨hcovers, -⟩ | ⟨-, hcourse⟩
      · rw [List.any_append, Bool.or_eq_true] at hcovers
        rcases hcovers with hcovers | hcovers
        · exact absurd ⟨nofun, .inr ⟨c, hc, hcovers⟩⟩ hw
        · exact absurd ⟨nofun, .inr ⟨c, hc, hcovers⟩⟩ hs
      · have hlogs : within i (fullLog n parent state a b l logs) = logs i := by
          rw [fullLog, if_pos ha, if_pos hb]
          exact (within_through n parent state (a.handed state) (b.handed (a.handed state)) a b
            logs (some l) i).trans (if_pos (List.getElem?_eq_some_iff.1 hc).1)
        obtain ⟨flow, hflow⟩ := ih (hlogs ▸ hcourse) hm fun hsuppressed =>
          hkept (suppressed_within hsuppressed)
        exact ⟨flow, answered_within hflow⟩

/-- What a visit to the end leaves out, and which hooks it calls. -/
theorem Course.called_iff (h : Course n parent state none log) {path : Path} {m : Node}
    (hm : n.at? path = some m) :
    ((∃ flow, Answered log .wildcard path flow) ↔ ¬Suppressed log path) ∧
      ((∃ flow, Answered log .enter path flow) ↔
        ¬Suppressed log path ∧ ¬Answered log .wildcard path .skip) ∧
      ((∃ flow, Answered log .leave path flow) ↔
        ¬Suppressed log path ∧ ¬Answered log .wildcard path .skip ∧
          ¬Answered log .enter path .skip) := by
  have hkept : ∀ {hook flow}, Answered log hook path flow → ¬Suppressed log path := by
    rintro hook flow ⟨e, he, -, rfl, -⟩
    exact h.not_suppressed he
  by_cases hsuppressed : Suppressed log path
  · have hnone : ∀ hook, ¬∃ flow, Answered log hook path flow := fun hook ⟨_, hflow⟩ =>
      hkept hflow hsuppressed
    simp only [hnone, hsuppressed, not_true_eq_false, false_and, and_self]
  · obtain ⟨flow, hflow⟩ := h.reaches hm hsuppressed
    obtain ⟨e, he, -⟩ := (answered_under path).2 hflow
    obtain ⟨c, above, received, ends, -, -, hcourse, hends⟩ :=
      h.course_under (List.ne_nil_of_mem he)
    rw [hends rfl] at hcourse
    simp only [← answered_under path, hsuppressed, not_false_eq_true, true_and,
      iff_true]
    exact hcourse.answered_iff

/-- The answers of the calls follow a rule. -/
def Follows (log : List (Event α)) (rule : Hook → Path → α → Flow α) : Prop :=
  ∀ e ∈ log, e.answer = rule e.hook e.path e.state

/-- The calls at the other places. -/
def outside (inside : Path → Bool) (log : List (Event α)) : List (Event α) :=
  log.filter fun e => !inside e.path

theorem outside_childEvents (inside : Path → Bool) (n : Node) (logs : Nat → List (Event α)) :
    outside inside (childEvents n logs) =
      childEvents n fun i => outside (fun path => inside (i :: path)) (logs i) := by
  rw [outside, childEvents, List.filter_flatMap]
  refine List.flatMap_congr fun x _ => ?_
  rw [List.filter_map]
  rfl

/-- Where two rules agree except at some places and below them, visits to the end
make the same calls at all others. -/
theorem Course.outside_eq {inside : Path → Bool}
    (hinside : ∀ above below, inside above = true → inside (above ++ below) = true)
    {rule rule' : Hook → Path → α → Flow α}
    (hagree : ∀ hook path, inside path = false → rule' hook path = rule hook path)
    {log' : List (Event α)} (h : Course n parent state none log)
    (h' : Course n parent state none log') (hrule : Follows log rule)
    (hrule' : Follows log' rule') : outside inside log = outside inside log' := by
  induction n using Node.induction generalizing parent state inside rule rule' log log' with
  | step n ih =>
      cases hroot : inside [] with
      | true =>
          have hall : ∀ path, inside path = true := fun path => hinside [] path hroot
          simp only [outside, hall, Bool.not_true, List.filter_false]
      | false =>
          -- the hooks of the node itself answer alike when they are given alike
          have hsame : ∀ e ∈ log, ∀ e' ∈ log', e.path = [] → e'.path = [] → e.hook = e'.hook →
              e.state = e'.state → e.answer = e'.answer := by
            intro e he e' he' hpath hpath' hhook hstate
            rw [hrule e he, hrule' e' he', hpath, hpath', hhook, hstate, hagree _ [] hroot]
          obtain ⟨a, b, c, logs, rfl, -, -, hchildren⟩ := h.full
          obtain ⟨a', b', c', logs', rfl, -, -, hchildren'⟩ := h'.full
          obtain rfl : a = a' := hsame _ List.mem_cons_self _ List.mem_cons_self rfl rfl rfl rfl
          unfold fullLog at hsame hrule hrule' ⊢
          by_cases ha : a.GoesOn
          · simp only [if_pos ha] at hsame hrule hrule' ⊢
            obtain rfl : b = b' := hsame _ (List.mem_cons_of_mem _ List.mem_cons_self) _
              (List.mem_cons_of_mem _ List.mem_cons_self) rfl rfl rfl rfl
            by_cases hb : b.GoesOn
            · simp only [if_pos hb] at hsame hrule hrule' ⊢
              obtain rfl : c = c' := hsame (.leave n (b.handed (a.handed state)) c) (by simp)
                (.leave n (b.handed (a.handed state)) c') (by simp) rfl rfl rfl rfl
              have hbelow : outside inside (childEvents n logs) =
                  outside inside (childEvents n logs') := by
                rw [outside_childEvents, outside_childEvents]
                refine List.flatMap_congr fun x hx => congrArg (List.map _) ?_
                have hmem : ∀ {logs : Nat → List (Event α)} {e}, e ∈ logs x.2 →
                    e.below x.2 ∈ childEvents n logs := fun he =>
                  List.mem_flatMap.2 ⟨x, hx, List.mem_map_of_mem he⟩
                rcases hchildren ha hb x hx with ⟨hcovers, hnil⟩ | ⟨hcovers, hcourse⟩
                · rcases hchildren' ha hb x hx with ⟨-, hnil'⟩ | ⟨hkept, -⟩
                  · beta_reduce
                    rw [hnil, hnil']
                  · rw [hcovers] at hkept
                    cases hkept
                · rcases hchildren' ha hb x hx with ⟨hcovered, -⟩ | ⟨-, hcourse'⟩
                  · rw [hcovers] at hcovered
                    cases hcovered
                  · exact ih x.1 (List.fst_mem_of_mem_zipIdx hx)
                      (fun above below => hinside (x.2 :: above) below)
                      (fun hook path hout => hagree hook (x.2 :: path) hout) hcourse hcourse'
                      (fun e he => hrule (e.below x.2) (by simp [hmem he]))
                      (fun e he => hrule' (e.below x.2) (by simp [hmem he]))
              simp only [outside, List.filter_cons, List.filter_append] at hbelow ⊢
              rw [hbelow]
            · simp only [if_neg hb]
          · simp only [if_neg ha]

end

/-- Where the answers follow a rule that never ends the walk, and nobody calls it
off, the root is visited to the end. -/
theorem course_of_follows {v : Visitor σ α} {root : Node} {state : α} {memory : σ}
    {rule : Hook → Path → α → Flow α} (hlive : ∀ m, v.canceled m = false)
    (hstays : ∀ hook path state, rule hook path state ≠ .exit)
    (hrule : Follows (v.events root none state memory) rule) :
    (v.visit root none state memory).1 = none ∧
      Course root none state none (v.events root none state memory) := by
  have hend : (v.visit root none state memory).1 = none := by
    refine visit_eq_none hlive fun s hs hexit => ?_
    have hanswer := hrule s.toEvent (List.mem_map_of_mem hs)
    exact hstays _ _ _ (hanswer.symm.trans hexit)
  exact ⟨hend, hend ▸ course_visit v root none state memory⟩

/-- State flows down the tree only, and exactly what an ancestor left out is not
called. In a walk that no hook ends and nobody calls off, each call is about the
node at its place and is given that node's parent; what the early hooks of a
node put in place is what its children and its late hook receive; a hook is
called unless an answer that came before it at the node or above it leaves it
out. Other answers inside one subtree make no difference outside it. -/
theorem walk_downward (v : Visitor σ α) (root : Node) (state : α) (memory : σ)
    (rule : Hook → Path → α → Flow α) (hlive : ∀ m, v.canceled m = false)
    (hstays : ∀ hook path state, rule hook path state ≠ .exit)
    (hrule : Follows (v.events root none state memory) rule) :
    let log := v.events root none state memory
    (v.walk root state memory).1 = .completed ∧
      v.calls root state memory = log.map (·.toHookCall) ∧
      (∀ e ∈ log, root.at? e.path = some e.node ∧
        (e.hook = .enter →
          e.parent = if e.path = [] then none else root.at? e.path.dropLast)) ∧
      (∀ e ∈ log, e.hook = .wildcard → e.path = [] → e.state = state) ∧
      (∀ w ∈ log, ∀ s ∈ log, w.hook = .wildcard → s.hook = .enter → s.path = w.path →
        s.state = w.answer.handed w.state ∧
          ∀ e ∈ log, (e.hook = .leave ∧ e.path = w.path ∨
              e.hook = .wildcard ∧ ∃ index, e.path = w.path ++ [index]) →
            e.state = s.answer.handed s.state) ∧
      (∀ path n, root.at? path = some n →
        ((∃ flow, Answered log .wildcard path flow) ↔ ¬Suppressed log path) ∧
        ((∃ flow, Answered log .enter path flow) ↔
          ¬Suppressed log path ∧ ¬Answered log .wildcard path .skip) ∧
        ((∃ flow, Answered log .leave path flow) ↔
          ¬Suppressed log path ∧ ¬Answered log .wildcard path .skip ∧
            ¬Answered log .enter path .skip)) ∧
      ∀ (τ : Type) (w : Visitor τ α) (memory' : τ) (rule' : Hook → Path → α → Flow α)
        (inner : Path), (∀ m, w.canceled m = false) →
        (∀ hook path state, rule' hook path state ≠ .exit) →
        Follows (w.events root none state memory') rule' →
        (∀ hook path, ¬inner <+: path → rule' hook path = rule hook path) →
        outside inner.isPrefixOf (w.events root none state memory') =
          outside inner.isPrefixOf log := by
  intro log
  obtain ⟨hend, hcourse⟩ := course_of_follows hlive hstays hrule
  refine ⟨congrArg Outcome.ofHalt hend, ?_, fun e he => ⟨hcourse.node_eq he, hcourse.parent_eq he⟩,
    fun e he => hcourse.state_eq_of_root he, fun w hw s hs => hcourse.state_eq hw hs,
    fun path n hn => hcourse.called_iff hn, ?_⟩
  · rw [calls_eq_map_steps]
    exact List.map_map.symm
  · intro τ w memory' rule' inner hlive' hstays' hrule' hagree
    obtain ⟨-, hcourse'⟩ := course_of_follows hlive' hstays' hrule'
    refine (hcourse.outside_eq (fun above below h => ?_) (fun hook path h => ?_) hcourse' hrule
      hrule').symm
    · rw [List.isPrefixOf_iff_prefix] at h ⊢
      exact h.trans (List.prefix_append above below)
    · refine hagree hook path fun hprefix => ?_
      rw [List.isPrefixOf_iff_prefix.2 hprefix] at h
      cases h

deriving instance DecidableEq for Flow

/-- A visitor that hands down the depth, leaves out the second element of an
array and the inside of `null`, and puts `inTrue` in place at `true`. -/
def elementPicker (inTrue : Nat) : Visitor Unit Nat where
  wildcard _ depth _ := (.replace (depth + 1), ())
  enter node _ depth _ :=
    match node with
    | .array .. => (.replaceIgnoring depth [.element .elements 1], ())
    | .null .. => (.skip, ())
    | .boolean .. => (.replace inTrue, ())
    | _ => (.continue, ())
  leave _ _ _ := (.continue, ())
  canceled _ := false

/-- What the visitor answers in an array of `null`, `null` and `true`. -/
def elementRule (inTrue : Nat) : Hook → Path → Nat → Flow Nat
  | .wildcard, _, depth => .replace (depth + 1)
  | .enter, [], depth => .replaceIgnoring depth [.element .elements 1]
  | .enter, [0], _ => .skip
  | .enter, [2], _ => .replace inTrue
  | _, _, _ => .continue

/-- An array of `null`, `null` and `true`: the first is entered and skipped, the
second is not reached, and what is put in place at the third makes no
difference to the other two. -/
theorem walk_downward_array :
    let items : Node := .array ⟨0, 16⟩
      [some ⟨none, .null ⟨1, 5⟩⟩, some ⟨none, .null ⟨6, 10⟩⟩, some ⟨none, .boolean ⟨11, 15⟩ true⟩]
    (∀ m, (elementPicker 5).canceled m = false) ∧
      (∀ hook path state, elementRule 5 hook path state ≠ .exit) ∧
      Follows ((elementPicker 5).events items none 0 ()) (elementRule 5) ∧
      ((elementPicker 5).walk items 0 ()).1 = .completed ∧
      ((∃ flow, Answered ((elementPicker 5).events items none 0 ()) .leave [2] flow) ↔
        ¬Suppressed ((elementPicker 5).events items none 0 ()) [2] ∧
          ¬Answered ((elementPicker 5).events items none 0 ()) .wildcard [2] .skip ∧
          ¬Answered ((elementPicker 5).events items none 0 ()) .enter [2] .skip) ∧
      outside [2].isPrefixOf ((elementPicker 7).events items none 0 ()) =
        outside [2].isPrefixOf ((elementPicker 5).events items none 0 ()) := by
  intro items
  have hstays : ∀ inTrue hook path state, elementRule inTrue hook path state ≠ .exit := by
    intro inTrue hook path state
    unfold elementRule
    split <;> nofun
  have hrule : ∀ e ∈ (elementPicker 5).events items none 0 (),
      e.answer = elementRule 5 e.hook e.path e.state := by decide +kernel
  have hrule' : ∀ e ∈ (elementPicker 7).events items none 0 (),
      e.answer = elementRule 7 e.hook e.path e.state := by decide +kernel
  obtain ⟨hend, -, -, -, -, hcalls, hothers⟩ := walk_downward (elementPicker 5) items 0 ()
    (elementRule 5) (fun _ => rfl) (hstays 5) hrule
  refine ⟨fun _ => rfl, hstays 5, hrule, hend, (hcalls [2] (.boolean ⟨11, 15⟩ true) rfl).2.2, ?_⟩
  refine hothers Unit (elementPicker 7) () (elementRule 7) [2] (fun _ => rfl) (hstays 7) hrule' ?_
  intro hook path hpath
  funext depth
  have hne : path ≠ [2] := fun h => hpath (h ▸ List.prefix_rfl)
  unfold elementRule
  split <;> first | rfl | exact absurd rfl hne

end Visitor

end StyleSense
