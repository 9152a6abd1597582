/-
# Where colors are read

Colors are read at the entries of objects and at references to types. Each of
these readers looks at what stands below it, but what stands below another
reader is left to that one. So every literal of a tree is before the eyes of one
reader at most: the closest one above it.
-/

import StyleSense.Assist.Swatches
import StyleSense.Proofs.Tree.Held

namespace StyleSense

/-- Whether two spans have a byte in common. -/
def Span.Overlaps (a b : Span) : Prop :=
  max a.start.toNat b.start.toNat < min a.stop.toNat b.stop.toNat

instance (a b : Span) : Decidable (a.Overlaps b) :=
  inferInstanceAs (Decidable (_ < _))

namespace Node

/-- String and template literals. -/
def isLiteral : Node → Bool
  | .string .. | .template .. => true
  | _ => false

/-- The literals of a tree. -/
def literals (n : Node) : List Node :=
  n.preorder.filter isLiteral

theorem literals_eq (n : Node) :
    n.literals =
      (if n.isLiteral then [n] else []) ++ (n.children.map Prod.snd).flatMap literals := by
  rw [literals, preorder_eq, List.filter_cons, List.filter_flatMap, List.flatMap_map]
  split
  · rfl
  · rfl

end Node

namespace Assist.Coloring

/-- Nodes at which colors are read. -/
def isReader : Node → Bool
  | .pair .property .. | .typeReference .. => true
  | _ => false

/-- Literals at a node and below it, less those below a reader. -/
def exposed (n : Node) : List Node :=
  if isReader n then []
  else (if n.isLiteral then [n] else []) ++ n.children.attach.flatMap fun c => exposed c.1.2
termination_by sizeOf n
decreasing_by exact Node.sizeOf_lt_of_mem_children c.2

/-- What a reader can see: the literals below it that no other reader is above
of. -/
def inSight (n : Node) : List Node :=
  if isReader n then (n.children.map Prod.snd).flatMap exposed else []

variable {n : Node}

theorem exposed_of_isReader (h : isReader n = true) : exposed n = [] := by
  rw [exposed, if_pos h]

theorem exposed_of_not_isReader (h : isReader n = false) :
    exposed n = (if n.isLiteral then [n] else []) ++ (n.children.map Prod.snd).flatMap exposed := by
  rw [exposed, h, Node.flatMap_attach_children, List.flatMap_map]
  rfl

/-- Nodes that are neither literals nor readers expose what their children do. -/
theorem exposed_eq (hreader : isReader n = false) (hliteral : n.isLiteral = false) :
    exposed n = (n.children.map Prod.snd).flatMap exposed := by
  rw [exposed_of_not_isReader hreader, hliteral]
  rfl

theorem isLiteral_of_isReader (h : isReader n = true) : n.isLiteral = false := by
  unfold isReader at h
  split at h
  · rfl
  · rfl
  · cases h

theorem isReader_of_isLiteral (h : n.isLiteral = true) : isReader n = false := by
  unfold Node.isLiteral at h
  split at h
  · rfl
  · rfl
  · cases h

/-- A literal is exposed. -/
theorem mem_exposed_of_isLiteral (h : n.isLiteral = true) : n ∈ exposed n := by
  rw [exposed_of_not_isReader (isReader_of_isLiteral h), if_pos h]
  exact List.mem_cons_self

/-- What a child exposes, its node does, unless it is a reader. -/
theorem exposed_child (h : isReader n = false) {c : ChildRef × Node} (hc : c ∈ n.children) :
    (exposed c.2).Sublist (exposed n) := by
  rw [exposed_of_not_isReader h]
  refine List.Sublist.trans ?_ (List.sublist_append_right _ _)
  exact List.sublist_flatten_of_mem (List.mem_map_of_mem (List.mem_map_of_mem hc))

theorem exposed_child_inSight (h : isReader n = true) {c : ChildRef × Node}
    (hc : c ∈ n.children) : (exposed c.2).Sublist (inSight n) := by
  rw [inSight, if_pos h]
  exact List.sublist_flatten_of_mem (List.mem_map_of_mem (List.mem_map_of_mem hc))

/-- A call exposes what its arguments do. -/
theorem exposed_arguments (span : Span) (callee : Node) (arguments : List (Argument Node))
    (typeArgs : Option Node) :
    ((arguments.map Argument.expression).flatMap exposed).Sublist
      (exposed (.call span callee arguments typeArgs)) := by
  rw [exposed_eq rfl rfl, Node.children, List.map_append, List.map_append,
    Node.map_snd_argumentChildren, List.flatMap_append, List.flatMap_append]
  exact (List.sublist_append_right _ _).trans (List.sublist_append_left _ _)

/-- Each literal of a tree is exposed at the root or in sight of one reader. -/
theorem literals_perm (root : Node) :
    root.literals.Perm (exposed root ++ root.preorder.flatMap inSight) := by
  induction root using Node.induction with
  | step root ih =>
      -- literals below the root are exposed there or in sight of a reader further down
      let below (f : Node → List Node) := (root.children.map Prod.snd).flatMap f
      have hbelow : (below Node.literals).Perm
          (below exposed ++ below fun m => m.preorder.flatMap inSight) := by
        refine (List.Perm.flatMap_left _ fun m hm => ?_).trans (List.flatMap_append_perm _ _ _).symm
        obtain ⟨c, hc, rfl⟩ := List.mem_map.1 hm
        exact ih c hc
      have hseen : root.preorder.flatMap inSight =
          inSight root ++ below fun m => m.preorder.flatMap inSight := by
        simp only [below, Node.preorder_eq root, List.flatMap_cons, List.flatMap_assoc,
          List.flatMap_map]
      rw [Node.literals_eq, hseen]
      cases hreader : isReader root with
      | true =>
          rw [isLiteral_of_isReader hreader, exposed_of_isReader hreader, inSight, if_pos hreader]
          exact hbelow
      | false =>
          rw [exposed_of_not_isReader hreader, inSight, hreader, List.append_assoc]
          exact hbelow.append_left _

end Assist.Coloring

end StyleSense
