/-
# Children are smaller

Every child is a part of its node, so recursion through `Node.children` ends.
-/

import StyleSense.Tree.Node

namespace StyleSense.Node

variable {α : Type} {field : Field} {r : ChildRef} {x : α}

theorem mem_itemsFrom {index : Nat} {items : List (Option α)}
    (h : (r, x) ∈ itemsFrom field index items) : some x ∈ items := by
  induction items generalizing index with
  | nil => simp [itemsFrom] at h
  | cons item rest ih =>
      cases item with
      | none => exact List.mem_cons_of_mem _ (ih (by simpa [itemsFrom] using h))
      | some y =>
          simp only [itemsFrom, List.mem_cons, Prod.mk.injEq] at h
          rcases h with ⟨-, rfl⟩ | h
          · exact List.mem_cons_self
          · exact List.mem_cons_of_mem _ (ih h)

theorem mem_oneChild {child : α} (h : (r, x) ∈ oneChild field child) : x = child := by
  simp [oneChild] at h
  exact h.2

theorem mem_optionalChild {child : Option α} (h : (r, x) ∈ optionalChild field child) :
    child = some x := by
  cases child with
  | none => simp [optionalChild] at h
  | some y => rw [mem_oneChild h]

theorem mem_listChildren {items : List α} (h : (r, x) ∈ listChildren field items) :
    x ∈ items := by
  simpa using mem_itemsFrom h

theorem mem_argumentChildren {items : List (Argument α)}
    (h : (r, x) ∈ argumentChildren field items) : ∃ a ∈ items, a.expression = x := by
  simpa using mem_itemsFrom h

theorem mem_elementChildren {items : List (Option (Argument α))}
    (h : (r, x) ∈ elementChildren field items) : ∃ a, some a ∈ items ∧ a.expression = x := by
  obtain ⟨item, hmem, hsome⟩ := List.mem_map.1 (mem_itemsFrom h)
  cases item with
  | none => simp at hsome
  | some a => exact ⟨a, hmem, by simpa using hsome⟩

theorem mem_slotsChildren {fields : List (Field × Content)} {slots : List (Slot α)}
    (h : (r, x) ∈ slotsChildren fields slots) :
    ∃ slot ∈ slots, slot = .one (some x) ∨ ∃ items, slot = .many items ∧ some x ∈ items := by
  induction fields generalizing slots with
  | nil => simp [slotsChildren] at h
  | cons f fields ih =>
      cases slots with
      | nil => simp [slotsChildren] at h
      | cons slot slots =>
          simp only [slotsChildren, List.mem_append] at h
          rcases h with h | h
          · refine ⟨slot, List.mem_cons_self, ?_⟩
            cases slot with
            | one child => exact .inl (by rw [mem_optionalChild h])
            | many items => exact .inr ⟨items, rfl, mem_itemsFrom h⟩
          · obtain ⟨slot, hmem, hslot⟩ := ih h
            exact ⟨slot, List.mem_cons_of_mem _ hmem, hslot⟩

/-! Sizes of the parts in which a child may lie. -/

theorem sizeOf_oneChild {child x : Node} (h : (r, x) ∈ oneChild field child) :
    sizeOf x ≤ sizeOf child :=
  Nat.le_of_eq (congrArg sizeOf (mem_oneChild h))

theorem sizeOf_optionalChild {child : Option Node} {x : Node}
    (h : (r, x) ∈ optionalChild field child) : sizeOf x < sizeOf child := by
  rw [mem_optionalChild h]
  simp

theorem sizeOf_listChildren {items : List Node} {x : Node}
    (h : (r, x) ∈ listChildren field items) : sizeOf x < sizeOf items :=
  List.sizeOf_lt_of_mem (mem_listChildren h)

theorem sizeOf_argumentChildren {items : List (Argument Node)} {x : Node}
    (h : (r, x) ∈ argumentChildren field items) : sizeOf x < sizeOf items := by
  obtain ⟨a, hmem, rfl⟩ := mem_argumentChildren h
  have hlist := List.sizeOf_lt_of_mem hmem
  cases a
  simp at hlist ⊢
  omega

theorem sizeOf_elementChildren {items : List (Option (Argument Node))} {x : Node}
    (h : (r, x) ∈ elementChildren field items) : sizeOf x < sizeOf items := by
  obtain ⟨a, hmem, rfl⟩ := mem_elementChildren h
  have hlist := List.sizeOf_lt_of_mem hmem
  cases a
  simp at hlist ⊢
  omega

theorem sizeOf_slotsChildren {fields : List (Field × Content)} {slots : List (Slot Node)}
    {x : Node} (h : (r, x) ∈ slotsChildren fields slots) : sizeOf x < sizeOf slots := by
  obtain ⟨slot, hmem, hslot⟩ := mem_slotsChildren h
  have hlist := List.sizeOf_lt_of_mem hmem
  rcases hslot with rfl | ⟨items, rfl, hitem⟩
  · simp at hlist
    omega
  · have hitem := List.sizeOf_lt_of_mem hitem
    simp at hlist hitem
    omega

/-- Every child is smaller than its node. -/
theorem sizeOf_children (n : Node) : ∀ c ∈ n.children, sizeOf c.2 < sizeOf n := by
  cases n with
  | cast kind _ _ _ _ =>
      cases kind <;> simp only [children, List.forall_mem_append] <;>
        refine ⟨fun c h => ?_, fun c h => ?_⟩ <;>
        first
        | have := sizeOf_oneChild h; simp; omega
        | have := sizeOf_optionalChild h; simp; omega
  | _ =>
      simp only [children, List.forall_mem_append]
      repeat' apply And.intro
      all_goals
        intro c h
        first
        | have := sizeOf_oneChild h; simp; omega
        | have := sizeOf_optionalChild h; simp; omega
        | have := sizeOf_listChildren h; simp; omega
        | have := sizeOf_argumentChildren h; simp; omega
        | have := sizeOf_elementChildren h; simp; omega
        | have := sizeOf_slotsChildren h; simp; omega
        | cases h

/-- A child is smaller than its node. -/
theorem sizeOf_lt_of_mem_children {n : Node} {c : ChildRef × Node} (h : c ∈ n.children) :
    sizeOf c.2 < sizeOf n :=
  sizeOf_children n c h

end StyleSense.Node
