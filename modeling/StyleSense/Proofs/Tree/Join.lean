/-
# Spans join

The union of two spans is their least upper bound, in an order that takes starts and
ends apart, so that it also orders spans that end before they start. No place is at the
bottom of it, and nothing else may be: two spans that stand somewhere never join to no
place. The laws of union follow from the order. A container has the least span over
those of its parts, so it is the same in whatever order they are joined.
-/

import Mathlib.Order.BoundedOrder.Lattice
import StyleSense.Proofs.Tree.Held
import StyleSense.Tree.Build

namespace StyleSense

/-- The greater of two offsets is the least one above both. -/
instance lawfulOrderSupOffset : Std.LawfulOrderSup UInt32 where
  max_le_iff x y z := by
    rw [UInt32.le_iff_toNat_le, UInt32.le_iff_toNat_le, UInt32.le_iff_toNat_le,
      UInt32.toNat_max, Nat.max_le]

namespace Span

variable {a b c s : Span} {spans spans' : List Span}

@[simp] theorem none_union (a : Span) : none.union a = a := rfl

@[simp] theorem union_none (a : Span) : a.union none = a := by
  by_cases ha : a = none
  · rw [ha, none_union]
  · rw [union, isNone_eq_false ha]
    rfl

theorem eq_none_of_zero (hstart : s.start = 0) (hstop : s.stop = 0) : s = none := by
  obtain ⟨start, stop⟩ := s
  cases hstart
  cases hstop
  rfl

/-- If the union of two spans ended at 0, so would both of them, and if it started there
as well, one of them would be no place. -/
theorem union_ne_none (ha : a ≠ none) (hb : b ≠ none) : a.union b ≠ none := by
  rw [union_of_ne_none ha hb]
  intro hunion
  have hstart : min a.start b.start = 0 := congrArg start hunion
  have hstop : max a.stop b.stop ≤ 0 := UInt32.le_zero_iff.2 (congrArg stop hunion)
  obtain ⟨hastop, hbstop⟩ := Std.max_le_iff.1 hstop
  obtain hmin | hmin := Std.min_eq_or (a := a.start) (b := b.start)
  · exact ha (eq_none_of_zero (hmin.symm.trans hstart) (UInt32.le_zero_iff.1 hastop))
  · exact hb (eq_none_of_zero (hmin.symm.trans hstart) (UInt32.le_zero_iff.1 hbstop))

/-- The span reaches no further than another one, at either end. No place is within
every span, and nothing else is within no place. -/
def Within (a b : Span) : Prop :=
  a = none ∨ b ≠ none ∧ b.start ≤ a.start ∧ a.stop ≤ b.stop

theorem within_iff (ha : a ≠ none) :
    a.Within b ↔ b ≠ none ∧ b.start ≤ a.start ∧ a.stop ≤ b.stop :=
  or_iff_right ha

theorem none_within (a : Span) : none.Within a :=
  .inl rfl

namespace Within

theorem refl (a : Span) : a.Within a := by
  by_cases ha : a = none
  · exact .inl ha
  · exact .inr ⟨ha, UInt32.le_refl _, UInt32.le_refl _⟩

theorem trans (hab : a.Within b) (hbc : b.Within c) : a.Within c := by
  obtain rfl | ⟨hb, hstart, hstop⟩ := hab
  · exact none_within c
  obtain ⟨hc, hstart', hstop'⟩ := (within_iff hb).1 hbc
  exact .inr ⟨hc, UInt32.le_trans hstart' hstart, UInt32.le_trans hstop hstop'⟩

theorem antisymm (hab : a.Within b) (hba : b.Within a) : a = b := by
  obtain rfl | ⟨hb, hstart, hstop⟩ := hab
  · obtain rfl | ⟨ha, -⟩ := hba
    · rfl
    · exact absurd rfl ha
  obtain ⟨-, hstart', hstop'⟩ := (within_iff hb).1 hba
  obtain ⟨start, stop⟩ := a
  cases UInt32.le_antisymm hstart hstart'
  cases UInt32.le_antisymm hstop hstop'
  rfl

end Within

/-- The union is within just those spans that both are within. -/
theorem union_within_iff : (a.union b).Within c ↔ a.Within c ∧ b.Within c := by
  by_cases ha : a = none
  · rw [ha, none_union, and_iff_right (none_within c)]
  by_cases hb : b = none
  · rw [hb, union_none, and_iff_left (none_within c)]
  rw [within_iff (union_ne_none ha hb), within_iff ha, within_iff hb, union_of_ne_none ha hb,
    Std.le_min_iff, Std.max_le_iff]
  constructor
  · rintro ⟨hc, ⟨hastart, hbstart⟩, hastop, hbstop⟩
    exact ⟨⟨hc, hastart, hastop⟩, hc, hbstart, hbstop⟩
  · rintro ⟨⟨hc, hastart, hastop⟩, -, hbstart, hbstop⟩
    exact ⟨hc, ⟨hastart, hbstart⟩, hastop, hbstop⟩

instance : SemilatticeSup Span where
  le := Within
  le_refl := .refl
  le_trans _ _ _ := .trans
  le_antisymm _ _ := Within.antisymm
  sup := union
  le_sup_left _ _ := (union_within_iff.1 (.refl _)).1
  le_sup_right _ _ := (union_within_iff.1 (.refl _)).2
  sup_le _ _ _ ha hb := union_within_iff.2 ⟨ha, hb⟩

instance : OrderBot Span where
  bot := none
  bot_le := none_within

theorem union_assoc (a b c : Span) : (a.union b).union c = a.union (b.union c) :=
  sup_assoc a b c

theorem union_comm (a b : Span) : a.union b = b.union a :=
  sup_comm a b

theorem union_self (a : Span) : a.union a = a :=
  sup_idem a

theorem foldl_union_le_iff : spans.foldl union a ≤ b ↔ a ≤ b ∧ ∀ s ∈ spans, s ≤ b := by
  induction spans generalizing a with
  | nil => simp
  | cons s spans ih =>
      have hunion : a.union s ≤ b ↔ a ≤ b ∧ s ≤ b := sup_le_iff
      rw [List.foldl_cons, ih, hunion, List.forall_mem_cons, and_assoc]

theorem unionAll_le_iff : unionAll spans ≤ b ↔ ∀ s ∈ spans, s ≤ b := by
  rw [unionAll, foldl_union_le_iff]
  exact and_iff_right bot_le

theorem le_unionAll (h : s ∈ spans) : s ≤ unionAll spans :=
  unionAll_le_iff.1 le_rfl s h

/-- Which spans are joined decides, not their order. -/
theorem unionAll_perm (h : spans.Perm spans') : unionAll spans = unionAll spans' := by
  refine eq_of_forall_ge_iff fun b => ?_
  simp only [unionAll_le_iff, h.mem_iff]

theorem unionAll_append (spans spans' : List Span) :
    unionAll (spans ++ spans') = (unionAll spans).union (unionAll spans') := by
  refine eq_of_forall_ge_iff fun b => ?_
  have hunion : (unionAll spans).union (unionAll spans') ≤ b ↔
      unionAll spans ≤ b ∧ unionAll spans' ≤ b := sup_le_iff
  simp only [hunion, unionAll_le_iff, List.forall_mem_append]

/-- A span that stands somewhere, and does not end before it starts, has both of its
ends in every span that it is within. -/
theorem contains_of_le (hle : a ≤ b) (ha : a ≠ none) (hordered : a.start ≤ a.stop) :
    b.contains a.start = true ∧ b.contains a.stop = true := by
  obtain ⟨-, hstart, hstop⟩ := (within_iff ha).1 hle
  simp only [contains, Bool.and_eq_true, decide_eq_true_eq]
  exact ⟨⟨hstart, UInt32.le_trans hordered hstop⟩, UInt32.le_trans hstart hordered, hstop⟩

end Span

namespace Build

open Node

/-- Nodes that have the join of the spans of their parts, which are listed in the order
in which they are joined. An array or a call of plain nodes is one of arguments without
dots, and a constant is a declaration. The brackets of a type reference and the
annotation of a signature are made inside of these. -/
inductive Container : List Node → Node → Prop
  | pair (kind : PairKind) (key value : Node) : Container [key, value] (.pair kind key value)
  | array (elements : List (Argument Node)) :
      Container (elements.map Argument.expression) (arrayOf elements)
  | object (properties : List Node) : Container properties (object properties)
  | spread (argument : Node) : Container [argument] (spread argument)
  | computed (expression : Node) : Container [expression] (computed expression)
  | parenthesized (expression : Node) : Container [expression] (parenthesized expression)
  | member (target key : Node) : Container [target, key] (member target key)
  | call (callee : Node) (arguments : List (Argument Node)) :
      Container (callee :: arguments.map Argument.expression) (callOf callee arguments)
  | binary (operator : String) (left right : Node) :
      Container [left, right] (binary operator left right)
  | unary (operator : String) (argument : Node) : Container [argument] (unary operator argument)
  | conditional (test consequent alternate : Node) :
      Container [test, consequent, alternate] (conditional test consequent alternate)
  | arrow (params : List Node) (body : Node) : Container (params ++ [body]) (arrow params body)
  | declarator (target init : Node) : Container [target, init] (declarator target init)
  | declaration (kind : String) (declarations : List Node) :
      Container declarations (declaration kind declarations)
  | statement (expression : Node) : Container [expression] (statement expression)
  | block (statements : List Node) : Container statements (block statements)
  | exported (declaration : Node) : Container [declaration] (exported declaration)
  | importFrom (specifiers : List Node) (source : Node) :
      Container (specifiers ++ [source]) (importFrom specifiers source)
  | defaultSpecifier (name : Node) : Container [name] (defaultSpecifier name)
  | namespaceSpecifier (name : Node) : Container [name] (namespaceSpecifier name)
  | namedSpecifier (name : Node) (imported : Option Node) :
      Container (imported.toList ++ [name]) (namedSpecifier name imported)
  | objectPattern (properties : List Node) : Container properties (objectPattern properties)
  | shorthand (key : Node) : Container [key] (shorthand key)
  | typeAlias (name annotated : Node) : Container [name, annotated] (typeAlias name annotated)
  | typeReference (name : Node) (params : List Node) :
      Container (params ++ [name]) (typeReference name params)
  | typeArguments (params : List Node) : Container params (.typeArguments (cover params) params)
  | typeLiteral (members : List Node) : Container members (typeLiteral members)
  | propertySignature (key type : Node) : Container [key, type] (propertySignature key type)
  | declaredType (type : Node) : Container [type] (.declaredType type.span type)
  | literalType (literal : Node) : Container [literal] (literalType literal)
  | unionType (types : List Node) : Container types (unionType types)

theorem reduceOption_map_id {α : Type} (items : List α) :
    (items.map some).reduceOption = items :=
  (reduceOption_map_some id items).trans (List.map_id items)

variable {parts : List Node} {node : Node}

namespace Container

theorem span_eq (h : Container parts node) : node.span = cover parts := by
  cases h with
  | call callee arguments =>
      rw [cover, List.map_cons, List.map_map]
      rfl
  | namedSpecifier name imported => cases imported <;> rfl
  | _ => rfl

/-- The children are the parts in some order, except that the parameters of a type and
the annotation of a signature come inside a node of their own. -/
theorem span_eq_children (h : Container parts node) :
    node.span = cover (node.children.map Prod.snd) := by
  cases h with
  | array elements =>
      have hchildren : (elementChildren .elements (elements.map some)).map Prod.snd =
          elements.map Argument.expression := by
        rw [map_snd_elementChildren, reduceOption_map_id]
      exact congrArg cover hchildren.symm
  | object | declaration | block | typeArguments | typeLiteral | unionType =>
      exact congrArg cover (map_snd_listChildren _).symm
  | objectPattern =>
      have hchildren : (listChildren .properties parts ++ []).map Prod.snd = parts := by
        rw [List.append_nil, map_snd_listChildren]
      exact congrArg cover hchildren.symm
  | call callee arguments =>
      have hchildren : (oneChild .callee callee ++ argumentChildren .arguments arguments ++
          []).map Prod.snd = callee :: arguments.map Argument.expression := by
        rw [List.append_nil, List.map_append, map_snd_argumentChildren]
        rfl
      exact (Container.call callee arguments).span_eq.trans (congrArg cover hchildren.symm)
  | arrow params body =>
      have hchildren : (Build.arrow params body).children.map Prod.snd = params ++ [body] := by
        refine (map_snd_slotsChildren rfl).trans ?_
        exact congrArg (· ++ [body]) (reduceOption_map_id params)
      exact congrArg cover hchildren.symm
  | importFrom specifiers source =>
      have hchildren : (listChildren .specifiers specifiers ++ oneChild .source source ++
          []).map Prod.snd = specifiers ++ [source] := by
        rw [List.append_nil, List.map_append, map_snd_listChildren]
        rfl
      exact congrArg cover hchildren.symm
  | declarator target init => exact Span.union_comm target.span init.span
  | namedSpecifier name imported =>
      cases imported with
      | none => rfl
      | some other => exact Span.union_comm other.span name.span
  | typeReference name params =>
      cases params with
      | nil => rfl
      | cons param params =>
          have hjoin : cover (param :: params ++ [name]) =
              (cover (param :: params)).union name.span := by
            rw [cover, List.map_append]
            exact Span.unionAll_append _ _
          exact hjoin.trans (Span.union_comm _ _)
  | _ => rfl

/-- The spans of parts and of children alike are within that of the container. -/
theorem span_le (h : Container parts node) {part : Node}
    (hpart : part ∈ parts ∨ part ∈ node.children.map Prod.snd) : part.span ≤ node.span := by
  obtain hpart | hchild := hpart
  · rw [h.span_eq]
    exact Span.le_unionAll (List.mem_map_of_mem hpart)
  · rw [h.span_eq_children]
    exact Span.le_unionAll (List.mem_map_of_mem hchild)

end Container

/-- Union is associative, commutative and idempotent, and no place is its identity. So
the span of a container is that of its parts in whatever order they are joined, and a
part or child that stands somewhere has both ends in it, unless it ends before it
starts. -/
theorem union_joins_parts :
    (∀ a b c : Span, (a.union b).union c = a.union (b.union c)) ∧
      (∀ a b : Span, a.union b = b.union a) ∧ (∀ a : Span, a.union a = a) ∧
      (∀ a : Span, Span.none.union a = a ∧ a.union Span.none = a) ∧
      ∀ parts node, Container parts node →
        (∀ order : List Node, order.Perm parts → Span.unionAll (order.map Node.span) = node.span) ∧
        ∀ part, part ∈ parts ∨ part ∈ node.children.map Prod.snd → part.span ≠ Span.none →
          node.span ≠ Span.none ∧ (part.span.start ≤ part.span.stop →
            node.span.contains part.span.start = true ∧
              node.span.contains part.span.stop = true) := by
  refine ⟨Span.union_assoc, Span.union_comm, Span.union_self,
    fun a => ⟨Span.none_union a, Span.union_none a⟩, ?_⟩
  intro parts node h
  constructor
  · intro order horder
    rw [h.span_eq]
    exact Span.unionAll_perm (horder.map Node.span)
  · intro part hpart hsome
    have hle := h.span_le hpart
    exact ⟨((Span.within_iff hsome).1 hle).1, Span.contains_of_le hle hsome⟩

/-- Among the parts may be one that is no place and one that ends before it starts. -/
theorem union_joins_parts_malformed :
    let key : Node := .identifier ⟨7, 9⟩ "a" none
    let malformed : Node := .identifier ⟨12, 3⟩ "b" none
    let whole := object [key, Node.invalid, malformed]
    Container [key, Node.invalid, malformed] whole ∧
      Span.unionAll ([malformed, key, Node.invalid].map Node.span) = whole.span ∧
      whole.span.contains 7 = true ∧ whole.span.contains 9 = true := by
  intro key malformed whole
  have hwhole : Container [key, Node.invalid, malformed] whole := .object _
  obtain ⟨hjoin, hcontains⟩ := union_joins_parts.2.2.2.2 _ _ hwhole
  have horder : [malformed, key, Node.invalid].Perm [key, Node.invalid, malformed] :=
    (List.perm_append_comm : ([malformed] ++ [key, Node.invalid]).Perm _)
  have hkey : key ∈ [key, Node.invalid, malformed] := List.mem_cons_self
  have hends := (hcontains key (.inl hkey) (by decide)).2 (by decide)
  exact ⟨hwhole, hjoin _ horder, hends⟩

end Build

end StyleSense
