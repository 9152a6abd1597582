/-
# What references refer to

A child is yielded with a reference: a field, and for an element of a list its
position there, where holes count. Here a reference is followed back into the record
of the node. It leads to the child it came with and to no other one, so leaving out
what a reference covers leaves out that child alone, and a reference to a whole field
covers what the field holds. All of it rests on one property of the traversal rules:
no rule names a field twice, the rules of methods included, which name the fields of
a function beside their own.
-/

import StyleSense.Proofs.Tree.Held

namespace StyleSense

/-- The node at a place of a slot: its one node, or an item of its list by position. -/
def Slot.at? {α : Type} : Slot α → Option Nat → Option α
  | .one child, none => child
  | .many items, some position => items[position]?.join
  | _, _ => none

/-- References to two elements of a list, in the order of the list. -/
def ChildRef.Before (a b : ChildRef) : Prop :=
  ∃ i j, a.index = some i ∧ b.index = some j ∧ i < j

namespace Node

/-- The fields that the traversal rule of the node's kind names, in the order of the
rule, with what the node's record holds in them. -/
def visitedFields : Node → List (Field × Slot Node)
  | program _ _ body => [(.body, .many (body.map some))]
  | block _ statements => [(.stmts, .many (statements.map some))]
  | declaration _ _ declarations => [(.declarations, .many (declarations.map some))]
  | declarator _ target init => [(.init, .one init), (.id, .one target)]
  | importFrom _ specifiers source asserts =>
      [(.specifiers, .many (specifiers.map some)), (.source, .one source), (.asserts, .one asserts)]
  | importDefault _ name => [(.localName, .one name)]
  | importNamespace _ name => [(.localName, .one name)]
  | importNamed _ name imported => [(.localName, .one name), (.imported, .one imported)]
  | string .. | number .. | boolean .. | null .. | bigint .. | regex .. | templatePart .. => []
  | identifier _ _ declared => [(.declaredType, .one declared)]
  | array _ elements => [(.elements, .many (elements.map (Option.map Argument.expression)))]
  | object _ properties => [(.properties, .many (properties.map some))]
  | spread _ argument => [(.arguments, .one argument)]
  | unary _ _ argument => [(.argument, .one argument)]
  | binary _ _ left right => [(.left, .one left), (.right, .one right)]
  | assignment _ left right => [(.left, .one left), (.right, .one right)]
  | defaulted _ left right => [(.left, .one left), (.right, .one right)]
  | member _ target key => [(.object, .one target), (.property, .one key)]
  | conditional _ test consequent alternate =>
      [(.test, .one test), (.consequent, .one consequent), (.alternate, .one alternate)]
  | call _ callee arguments typeArgs =>
      [(.callee, .one callee), (.arguments, .many (arguments.map fun a => some a.expression)),
        (.typeArguments, .one typeArgs)]
  | template _ quasis expressions types =>
      [(.quasis, .many (quasis.map some)), (.expressions, .many (expressions.map some)),
        (.types, .many (types.map some))]
  | sequence _ expressions => [(.expressions, .many (expressions.map some))]
  | await _ argument => [(.argument, .one argument)]
  | wrapped _ _ expression => [(.expression, .one expression)]
  | cast .instantiation _ expression _ typeArgs =>
      [(.expression, .one expression), (.typeArguments, .one typeArgs)]
  | cast _ _ expression declared _ =>
      [(.expression, .one expression), (.declaredType, .one declared)]
  | pair _ key value => [(.key, .one key), (.value, .one value)]
  | shorthand _ key value => [(.key, .one key), (.value, .one value)]
  | objectPattern _ properties declared =>
      [(.properties, .many (properties.map some)), (.declaredType, .one declared)]
  | typeReference _ name typeParams =>
      [(.typeName, .one name), (.typeParams, .one typeParams)]
  | qualifiedName _ left right => [(.left, .one left), (.right, .one right)]
  | typeArguments _ params => [(.params, .many (params.map some))]
  | typeLiteral _ members => [(.members, .many (members.map some))]
  | propertySignature _ key declared => [(.key, .one key), (.declaredType, .one declared)]
  | declaredType _ annotated => [(.declaredType, .one annotated)]
  | unionType _ types => [(.types, .many (types.map some))]
  | literalType _ literal => [(.literal, .one literal)]
  | plain form _ slots _ => (form.visited.map Prod.fst).zip slots

/-- What a reference refers to in the record of a node. -/
def referent? (n : Node) (r : ChildRef) : Option Node :=
  (n.visitedFields.lookup r.field).bind (·.at? r.index)

section

variable {α : Type} {field : Field} {r : ChildRef} {x : α}

theorem mem_itemsFrom_iff {start : Nat} {items : List (Option α)} :
    (r, x) ∈ itemsFrom field start items ↔
      r.field = field ∧ ∃ i, r.index = some (start + i) ∧ items[i]? = some (some x) := by
  induction items generalizing start with
  | nil => simp [itemsFrom]
  | cons item rest ih =>
      -- The first item is at `start`, and the others are counted from the place behind it.
      have hrest : (r, x) ∈ itemsFrom field (start + 1) rest ↔
          r.field = field ∧ ∃ i, r.index = some (start + (i + 1)) ∧ rest[i]? = some (some x) := by
        simp only [ih, Nat.add_assoc, Nat.add_comm 1]
      rw [← Nat.or_exists_add_one]
      simp only [List.getElem?_cons_zero, List.getElem?_cons_succ, Nat.add_zero]
      cases item with
      | none => simp [itemsFrom, hrest]
      | some y =>
          obtain ⟨rfield, rindex⟩ := r
          simp only [itemsFrom, List.mem_cons, hrest, ChildRef.element, Prod.mk.injEq,
            ChildRef.mk.injEq, Option.some.injEq, eq_comm (a := x)]
          tauto

theorem pairwise_itemsFrom (start : Nat) (items : List (Option α)) :
    (itemsFrom field start items).Pairwise fun a b => a.1.Before b.1 := by
  induction items generalizing start with
  | nil => exact List.Pairwise.nil
  | cons item rest ih =>
      cases item with
      | none => exact ih (start + 1)
      | some y =>
          refine List.Pairwise.cons ?_ (ih (start + 1))
          rintro ⟨r, x⟩ hmem
          obtain ⟨-, i, hindex, -⟩ := mem_itemsFrom_iff.1 hmem
          exact ⟨start, start + 1 + i, rfl, hindex, by omega⟩

theorem mem_slotChildren_iff {slot : Slot α} :
    (r, x) ∈ slotChildren field slot ↔ r.field = field ∧ slot.at? r.index = some x := by
  obtain ⟨rfield, rindex⟩ := r
  cases slot with
  | one child =>
      cases child <;> cases rindex <;>
        simp [slotChildren, optionalChild, oneChild, ChildRef.whole, Slot.at?, eq_comm]
  | many items =>
      cases rindex <;>
        simp [slotChildren, mem_itemsFrom_iff, Slot.at?, Option.join_eq_some_iff]

theorem pairwise_slotChildren (slot : Slot α) :
    (slotChildren field slot).Pairwise fun a b => a.1.Before b.1 := by
  cases slot with
  | one child =>
      cases child with
      | none => exact List.Pairwise.nil
      | some y => exact List.pairwise_singleton _ _
  | many items => exact pairwise_itemsFrom 0 items

theorem slotsChildren_eq (fields : List (Field × Content)) (slots : List (Slot α)) :
    slotsChildren fields slots =
      ((fields.map Prod.fst).zip slots).flatMap fun entry => slotChildren entry.1 entry.2 := by
  induction fields generalizing slots with
  | nil => rfl
  | cons first fields ih =>
      cases slots with
      | nil => rfl
      | cons slot slots =>
          rw [slotsChildren, ih, List.map_cons, List.zip_cons_cons, List.flatMap_cons]

end

theorem children_eq (n : Node) :
    n.children = n.visitedFields.flatMap fun entry => slotChildren entry.1 entry.2 := by
  cases n with
  | plain form span slots rest => exact slotsChildren_eq form.visited slots
  | cast kind span expression declared typeArgs =>
      cases kind <;> simp [children, visitedFields, slotChildren, optionalChild]
  | _ =>
      simp [children, visitedFields, slotChildren, optionalChild, listChildren, argumentChildren,
        elementChildren]

theorem map_fst_zip_sublist {α β : Type} (as : List α) (bs : List β) :
    ((as.zip bs).map Prod.fst).Sublist as := by
  induction as generalizing bs with
  | nil => exact List.Sublist.slnil
  | cons a as ih =>
      cases bs with
      | nil => exact List.nil_sublist _
      | cons b bs => exact (ih bs).cons_cons a

/-- No rule names a field twice. -/
theorem nodup_visitedFields (n : Node) : (n.visitedFields.map Prod.fst).Nodup := by
  cases n with
  | plain form span slots rest =>
      have hfields : (form.visited.map Prod.fst).Nodup := by
        have hall := form.nodup_fields
        rw [Form.fields, List.map_append] at hall
        exact (List.nodup_append.1 hall).1
      exact hfields.sublist (map_fst_zip_sublist _ _)
  | cast kind span expression declared typeArgs => cases kind <;> simp [visitedFields]
  | _ => simp [visitedFields]

theorem lookup_eq_some_iff_mem {entries : List (Field × Slot Node)}
    (hnodup : (entries.map Prod.fst).Nodup) {field : Field} {slot : Slot Node} :
    entries.lookup field = some slot ↔ (field, slot) ∈ entries := by
  constructor
  · intro h
    obtain ⟨before, after, rfl, -⟩ := List.lookup_eq_some_iff.1 h
    exact List.mem_append_right _ List.mem_cons_self
  · intro h
    obtain ⟨before, after, rfl⟩ := List.append_of_mem h
    refine List.lookup_eq_some_iff.2 ⟨before, after, rfl, fun entry hentry => ?_⟩
    rw [List.map_append, List.map_cons, List.nodup_append] at hnodup
    rw [bne_iff_ne]
    exact Ne.symm (hnodup.2.2 _ (List.mem_map_of_mem hentry) _ List.mem_cons_self)

/-- The children of a node are what references refer to in its record. -/
theorem mem_children_iff {n : Node} {r : ChildRef} {x : Node} :
    (r, x) ∈ n.children ↔ n.referent? r = some x := by
  rw [children_eq, referent?, Option.bind_eq_some_iff, List.mem_flatMap]
  simp only [mem_slotChildren_iff, lookup_eq_some_iff_mem n.nodup_visitedFields]
  constructor
  · rintro ⟨⟨field, slot⟩, hentry, rfl, hat⟩
    exact ⟨slot, hentry, hat⟩
  · rintro ⟨slot, hentry, hat⟩
    exact ⟨(r.field, slot), hentry, rfl, hat⟩

/-- Two children of one field are elements of its list, in the order of the list. -/
theorem pairwise_children (n : Node) :
    n.children.Pairwise fun a b => a.1.field = b.1.field → a.1.Before b.1 := by
  have hfields : n.visitedFields.Pairwise fun a b => a.1 ≠ b.1 :=
    List.pairwise_map.1 n.nodup_visitedFields
  rw [children_eq, List.pairwise_flatMap]
  constructor
  · intro entry _
    exact (pairwise_slotChildren entry.2).imp (S := fun a b => a.1.field = b.1.field → _)
      fun h _ => h
  · refine hfields.imp fun hne a ha b hb hsame => ?_
    have hfirst := (mem_slotChildren_iff.1 ha).1
    have hsecond := (mem_slotChildren_iff.1 hb).1
    exact absurd (hfirst.symm.trans (hsame.trans hsecond)) hne

end Node

namespace ChildRef

theorem covers_whole_iff {field : Field} {r : ChildRef} :
    (whole field).covers r = true ↔ r.field = field := by
  simp only [covers, whole, Option.isNone_none, Bool.true_or, Bool.and_true]
  exact decide_eq_true_iff.trans eq_comm

theorem covers_self (r : ChildRef) : r.covers r = true := by
  simp [covers]

/-- Neither of two references covers the other one, in one field if they are of two
elements. -/
theorem covers_eq_false {a b : ChildRef} (h : a.field = b.field → a.Before b) :
    a.covers b = false ∧ b.covers a = false := by
  by_cases hsame : a.field = b.field
  · obtain ⟨i, j, hi, hj, hlt⟩ := h hsame
    have hne : i ≠ j := Nat.ne_of_lt hlt
    simp [covers, hi, hj, hne, hne.symm]
  · simp [covers, hsame, Ne.symm hsame]

end ChildRef

namespace Node

/-- No child of a node is covered by a reference that comes with another one. -/
theorem pairwise_uncovered (n : Node) :
    n.children.Pairwise fun a b => a.1.covers b.1 = false ∧ b.1.covers a.1 = false :=
  n.pairwise_children.imp ChildRef.covers_eq_false

theorem nodup_references (n : Node) : (n.children.map Prod.fst).Nodup := by
  refine List.pairwise_map.2 (n.pairwise_uncovered.imp fun {a b} h heq => ?_)
  have hself := h.1
  rw [heq, ChildRef.covers_self] at hself
  cases hself

/-- Of the children of a node, a reference that comes with one covers that one only. -/
theorem covers_iff {n : Node} {i j : Nat} (hi : i < n.children.length)
    (hj : j < n.children.length) :
    n.children[i].1.covers n.children[j].1 = true ↔ i = j := by
  have hother := List.pairwise_iff_getElem.1 n.pairwise_uncovered
  constructor
  · intro hcovers
    rcases Nat.lt_trichotomy i j with hlt | heq | hgt
    · rw [(hother i j hi hj hlt).1] at hcovers
      cases hcovers
    · exact heq
    · rw [(hother j i hj hi hgt).2] at hcovers
      cases hcovers
  · rintro rfl
    exact ChildRef.covers_self _

theorem filter_slotChildren (field : Field) (entry : Field × Slot Node) :
    ((slotChildren entry.1 entry.2).filter fun c => (ChildRef.whole field).covers c.1) =
      if entry.1 = field then slotChildren entry.1 entry.2 else [] := by
  have hfield {c : ChildRef × Node} (hc : c ∈ slotChildren entry.1 entry.2) :
      c.1.field = entry.1 := (mem_slotChildren_iff.1 hc).1
  split
  next heq =>
    exact List.filter_eq_self.2 fun c hc => ChildRef.covers_whole_iff.2 ((hfield hc).trans heq)
  next hne =>
    refine List.filter_eq_nil_iff.2 fun c hc hcovers => hne ?_
    exact (hfield hc).symm.trans (ChildRef.covers_whole_iff.1 hcovers)

/-- A reference to a whole field covers the children that the field holds. -/
theorem map_snd_covered (n : Node) (field : Field) :
    (n.children.filter fun c => (ChildRef.whole field).covers c.1).map Prod.snd =
      inField n.visitedFields field := by
  have hnodup := n.nodup_visitedFields
  rw [children_eq, List.filter_flatMap]
  simp only [filter_slotChildren]
  generalize n.visitedFields = entries at hnodup ⊢
  induction entries with
  | nil => rfl
  | cons entry entries ih =>
      obtain ⟨hfresh, hnodup⟩ := List.nodup_cons.1 hnodup
      rw [List.flatMap_cons, List.map_append, ih hnodup, inField, inField, List.lookup_cons]
      by_cases hfield : entry.1 = field
      · subst hfield
        have hothers : entries.lookup entry.1 = none := by
          refine List.lookup_eq_none_iff.2 fun other hother => bne_iff_ne.2 fun heq => hfresh ?_
          rw [heq]
          exact List.mem_map_of_mem hother
        rw [if_pos rfl, map_snd_slotChildren, beq_self_eq_true, hothers]
        exact List.append_nil _
      · rw [if_neg hfield, beq_false_of_ne (Ne.symm hfield)]
        rfl

theorem zip_append_leads {α β : Type} (as as' : List α) (bs bs' : List β) :
    as.zip bs <+: (as ++ as').zip (bs ++ bs') := by
  induction as generalizing bs with
  | nil => exact List.nil_prefix
  | cons a as ih =>
      cases bs with
      | nil => exact List.nil_prefix
      | cons b bs => exact List.cons_prefix_cons.2 ⟨rfl, ih bs⟩

theorem mem_nodes_of_at? {α : Type} {slot : Slot α} {index : Option Nat} {x : α}
    (h : slot.at? index = some x) : x ∈ slot.nodes := by
  cases slot with
  | one child =>
      cases index with
      | none => exact Option.mem_toList.2 h
      | some position => cases h
  | many items =>
      cases index with
      | none => cases h
      | some position =>
          have hitem := List.mem_of_getElem? (Option.join_eq_some_iff.1 h)
          exact List.reduceOption_mem_iff.2 hitem

/-- A child is held in the field that its reference names. -/
theorem mem_held_of_child {n : Node} {c : ChildRef × Node} (hc : c ∈ n.children) :
    c.2 ∈ n.held := by
  cases n with
  | plain form span slots rest =>
      obtain ⟨slot, hslot, hat⟩ := Option.bind_eq_some_iff.1 (mem_children_iff.1 hc)
      have hvisited := (lookup_eq_some_iff_mem (nodup_visitedFields _)).1 hslot
      have hentry : (c.1.field, slot) ∈ form.fields.zip (slots ++ rest) := by
        rw [Form.fields, List.map_append]
        exact (zip_append_leads _ _ _ _).subset hvisited
      have hnodup := form.nodup_fields.sublist (map_fst_zip_sublist form.fields (slots ++ rest))
      have hfield := form.record_perm.mem_iff.2 (List.of_mem_zip hentry).1
      refine List.mem_flatMap.2 ⟨c.1.field, hfield, ?_⟩
      rw [inField, (lookup_eq_some_iff_mem hnodup).2 hentry]
      exact mem_nodes_of_at? hat
  | _ => exact (held_perm (by trivial)).mem_iff.2 (List.mem_append_left _ (List.mem_map_of_mem hc))

theorem sizeOf_le_of_mem_everything {n m : Node} (h : m ∈ n.everything) : sizeOf m ≤ sizeOf n := by
  rw [everything_eq] at h
  rcases List.mem_cons.1 h with rfl | h
  · exact Nat.le_refl _
  · obtain ⟨child, hchild, hm⟩ := List.mem_flatMap.1 h
    have hless := sizeOf_lt_of_mem_held hchild
    exact Nat.le_trans (sizeOf_le_of_mem_everything hm) (Nat.le_of_lt hless)
termination_by sizeOf n

/-- A child is a part of its node, and its node is no part of it. -/
theorem subtree_of_child {n : Node} {c : ChildRef × Node} (hc : c ∈ n.children) :
    c.2 ∈ n.everything ∧ n ∉ c.2.everything := by
  refine ⟨everything_subset (mem_held_of_child hc) (mem_everything_self c.2), fun h => ?_⟩
  have hless := sizeOf_lt_of_mem_children hc
  exact absurd (sizeOf_le_of_mem_everything h) (Nat.not_le.2 hless)

/-- The references of a node's children are pairwise distinct. Within a field their
indices increase, and a reference leads to its child in the record, by its position in
the list. Every child is a proper subtree. So a reference covers the child it comes
with and no other one, and a reference to a whole field covers what the field holds. -/
theorem references_identify (n : Node) :
    (n.children.map Prod.fst).Nodup ∧
      (n.children.Pairwise fun a b => a.1.field = b.1.field → a.1.Before b.1) ∧
      (∀ r x, (r, x) ∈ n.children ↔ n.referent? r = some x) ∧
      (∀ c ∈ n.children, c.2 ∈ n.everything ∧ n ∉ c.2.everything) ∧
      (∀ i j, (hi : i < n.children.length) → (hj : j < n.children.length) →
        (n.children[i].1.covers n.children[j].1 = true ↔ i = j)) ∧
      (∀ field, (n.children.filter fun c => (ChildRef.whole field).covers c.1).map Prod.snd =
        inField n.visitedFields field) :=
  ⟨n.nodup_references, n.pairwise_children, fun _ _ => mem_children_iff,
    fun _ hc => subtree_of_child hc, fun _ _ hi hj => covers_iff hi hj, n.map_snd_covered⟩

end Node

end StyleSense
