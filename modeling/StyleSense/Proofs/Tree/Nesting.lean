/-
# Nesting

Which nodes stand around a place. Of those that a predicate picks, the places
are listed with the closest first, by recursion on the way down; the places on
the list are the shorter ways that lead to such a node (`mem_enclosing`), and
the first of them is the innermost one (`innermost_iff`).
-/

import StyleSense.Proofs.Tree.Steps

namespace StyleSense.Node

variable {p : Node → Bool} {n : Node} {path place scope : Path} {i : Nat}

/-- The places of a tree. -/
def places (n : Node) : List Path :=
  [] :: n.children.zipIdx.attach.flatMap fun x => (places x.1.1.2).map (x.1.2 :: ·)
termination_by sizeOf n
decreasing_by exact Node.sizeOf_lt_of_mem_children (List.fst_mem_of_mem_zipIdx x.2)

theorem mem_places {m : Node} (h : n.at? path = some m) : path ∈ n.places := by
  induction path generalizing n with
  | nil =>
      rw [places]
      exact List.mem_cons_self
  | cons i path ih =>
      cases hc : n.children[i]? with
      | none => simp [at?, hc] at h
      | some c =>
          rw [at?_cons hc] at h
          have hx : (c, i) ∈ n.children.zipIdx := List.mk_mem_zipIdx_iff_getElem?.2 hc
          rw [places]
          refine List.mem_cons_of_mem _ (List.mem_flatMap.2 ⟨⟨(c, i), hx⟩, List.mem_attach _ _, ?_⟩)
          exact List.mem_map_of_mem (ih h)

/-- The places of the nodes around a place that `p` picks, the closest first. No
node is around itself. -/
def enclosing (p : Node → Bool) : Node → Path → List Path
  | _, [] => []
  | n, i :: path =>
      (match n.children[i]? with
        | some c => (c.2.enclosing p path).map (i :: ·)
        | none => []) ++ if p n then [[]] else []

/-- The same without the node at the top. -/
def enclosingBelow (p : Node → Bool) (n : Node) : Path → List Path
  | [] => []
  | i :: path =>
      match n.children[i]? with
      | some c => (c.2.enclosing p path).map (i :: ·)
      | none => []

theorem enclosing_cons (p : Node → Bool) (n : Node) (i : Nat) (path : Path) :
    n.enclosing p (i :: path) =
      n.enclosingBelow p (i :: path) ++ if p n then [[]] else [] := rfl

theorem enclosingBelow_cons {c : ChildRef × Node} (h : n.children[i]? = some c) (path : Path) :
    n.enclosingBelow p (i :: path) = (c.2.enclosing p path).map (i :: ·) := by
  rw [enclosingBelow, h]

theorem enclosing_of_neg (h : p n = false) (path : Path) :
    n.enclosing p path = n.enclosingBelow p path := by
  cases path with
  | nil => rfl
  | cons i path => rw [enclosing_cons, h, if_neg Bool.false_ne_true, List.append_nil]

theorem enclosing_of_pos (h : p n = true) (i : Nat) (path : Path) :
    n.enclosing p (i :: path) = n.enclosingBelow p (i :: path) ++ [[]] := by
  rw [enclosing_cons, if_pos h]

/-- Below a child every place starts with the way to that child. -/
theorem exists_of_mem_enclosingBelow (h : place ∈ n.enclosingBelow p path) :
    ∃ i above below, path = i :: above ∧ place = i :: below := by
  cases path with
  | nil => exact absurd h List.not_mem_nil
  | cons i path =>
      rw [enclosingBelow] at h
      split at h
      · obtain ⟨below, -, rfl⟩ := List.mem_map.1 h
        exact ⟨i, path, below, rfl, rfl⟩
      · exact absurd h List.not_mem_nil

/-- A node that `p` picks stands at `place`, around `path`. -/
structure Encloses (p : Node → Bool) (root : Node) (path place : Path) : Prop where
  above : place <+: path
  ne : place ≠ path
  picked : (root.at? place).any p = true

theorem mem_enclosing : place ∈ n.enclosing p path ↔ Encloses p n path place := by
  induction path generalizing n place with
  | nil =>
      exact ⟨fun h => absurd h List.not_mem_nil, fun h => absurd (List.prefix_nil.1 h.above) h.ne⟩
  | cons i path ih =>
      rw [enclosing_cons, List.mem_append]
      constructor
      · rintro (h | h)
        · rw [enclosingBelow] at h
          split at h
          · next c hc =>
              obtain ⟨below, hbelow, rfl⟩ := List.mem_map.1 h
              obtain ⟨habove, hne, hpicked⟩ := ih.1 hbelow
              refine ⟨(List.cons_prefix_cons).2 ⟨rfl, habove⟩, fun h => hne (List.cons.inj h).2, ?_⟩
              rwa [at?_cons hc]
          · exact absurd h List.not_mem_nil
        · split at h
          · next hp =>
              obtain rfl := List.mem_singleton.1 h
              exact ⟨List.nil_prefix, (List.cons_ne_nil i path).symm, by simpa [at?] using hp⟩
          · exact absurd h List.not_mem_nil
      · rintro ⟨habove, hne, hpicked⟩
        cases place with
        | nil =>
            right
            rw [if_pos (by simpa [at?] using hpicked)]
            exact List.mem_singleton_self []
        | cons j place =>
            obtain ⟨rfl, hbelow⟩ := List.cons_prefix_cons.1 habove
            left
            cases hc : n.children[j]? with
            | none => simp [at?, hc] at hpicked
            | some c =>
                rw [at?_cons hc] at hpicked
                rw [enclosingBelow_cons hc]
                exact List.mem_map_of_mem (ih.2 ⟨hbelow, fun h => hne (h ▸ rfl), hpicked⟩)

/-- Of two places on the list the later one is further up. -/
theorem pairwise_enclosing (p : Node → Bool) (n : Node) (path : Path) :
    (n.enclosing p path).Pairwise fun a b => b <+: a ∧ b ≠ a := by
  induction path generalizing n with
  | nil => exact .nil
  | cons i path ih =>
      rw [enclosing_cons, List.pairwise_append]
      refine ⟨?_, ?_, ?_⟩
      · rw [enclosingBelow]
        split
        · next c hc =>
            rw [List.pairwise_map]
            exact (ih c.2).imp fun h =>
              ⟨List.cons_prefix_cons.2 ⟨rfl, h.1⟩, fun heq => h.2 (List.cons.inj heq).2⟩
        · exact .nil
      · split
        · exact List.pairwise_singleton _ _
        · exact .nil
      · intro a ha b hb
        obtain ⟨i, above, below, -, rfl⟩ := exists_of_mem_enclosingBelow ha
        split at hb
        · obtain rfl := List.mem_singleton.1 hb
          exact ⟨List.nil_prefix, (List.cons_ne_nil i below).symm⟩
        · exact absurd hb List.not_mem_nil

/-- The closest node around a place that `p` picks stands at `scope`. -/
structure Innermost (p : Node → Bool) (root : Node) (path scope : Path) : Prop
    extends Encloses p root path scope where
  closest : ∀ place, Encloses p root path place → place <+: scope

/-- What stands further in than a place on the list is listed before it. -/
theorem mem_of_enclosing_eq_append (inner : List Path) {outer : List Path}
    (h : n.enclosing p path = inner ++ scope :: outer) (hplace : Encloses p n path place) :
    place ∈ inner ∨ place <+: scope := by
  have hsorted := pairwise_enclosing p n path
  have hmem := mem_enclosing.2 hplace
  rw [h, List.mem_append, List.mem_cons] at hmem
  rw [h] at hsorted
  rcases hmem with hinner | rfl | houter
  · exact .inl hinner
  · exact .inr (List.prefix_refl place)
  · exact .inr ((List.pairwise_cons.1 (List.pairwise_append.1 hsorted).2.1).1 place houter).1

theorem innermost_iff :
    Innermost p n path scope ↔ (n.enclosing p path).head? = some scope := by
  constructor
  · rintro ⟨hscope, hclosest⟩
    have hmem := mem_enclosing.2 hscope
    obtain ⟨first, outer, hlist⟩ := List.exists_cons_of_ne_nil (List.ne_nil_of_mem hmem)
    have hfirst : Encloses p n path first := mem_enclosing.1 (hlist ▸ List.mem_cons_self)
    have hup : scope <+: first :=
      (mem_of_enclosing_eq_append [] hlist hscope).resolve_left List.not_mem_nil
    rw [hlist, List.head?_cons, hup.eq_of_length_le (hclosest first hfirst).length_le]
  · intro h
    obtain ⟨outer, hlist⟩ := List.head?_eq_some_iff.1 h
    refine ⟨mem_enclosing.1 (hlist ▸ List.mem_cons_self), fun place hplace => ?_⟩
    exact (mem_of_enclosing_eq_append [] hlist hplace).resolve_left List.not_mem_nil

end StyleSense.Node
