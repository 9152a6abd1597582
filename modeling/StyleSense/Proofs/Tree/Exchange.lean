/-
# Trees with other children

A node keeps everything but its children, each of which is exchanged for
another under the same reference. Exchanging children again and again, further
and further down, changes a tree at any depth.
-/

import Mathlib.Data.List.Forall2
import StyleSense.Proofs.Tree.Walk

namespace StyleSense.Node

/-- A child in a single-valued field that may be empty, exchanged. -/
def exchangeOptional (f : ChildRef → Node → Node) (field : Field) : Option Node → Option Node :=
  Option.map (f (.whole field))

/-- The children in a list, exchanged. -/
def exchangeList (f : ChildRef → Node → Node) (field : Field) (items : List Node) : List Node :=
  items.mapIdx fun i n => f (.element field i) n

/-- The children in a list with holes, exchanged. -/
def exchangeItems (f : ChildRef → Node → Node) (field : Field) (items : List (Option Node)) :
    List (Option Node) :=
  items.mapIdx fun i item => item.map (f (.element field i))

/-- An argument with another expression. -/
def exchangeArgument (f : Node → Node) (argument : Argument Node) : Argument Node :=
  { argument with expression := f argument.expression }

/-- The expressions of arguments, exchanged. -/
def exchangeArguments (f : ChildRef → Node → Node) (field : Field)
    (items : List (Argument Node)) : List (Argument Node) :=
  items.mapIdx fun i argument => exchangeArgument (f (.element field i)) argument

/-- The expressions of array elements, exchanged. -/
def exchangeElements (f : ChildRef → Node → Node) (field : Field)
    (items : List (Option (Argument Node))) : List (Option (Argument Node)) :=
  items.mapIdx fun i element => element.map (exchangeArgument (f (.element field i)))

/-- The children in a slot, exchanged. -/
def exchangeSlot (f : ChildRef → Node → Node) (field : Field) : Slot Node → Slot Node
  | .one child => .one (exchangeOptional f field child)
  | .many items => .many (exchangeItems f field items)

/-- The children in a row of slots, exchanged. -/
def exchangeSlots (f : ChildRef → Node → Node) :
    List (Field × Content) → List (Slot Node) → List (Slot Node)
  | (field, _) :: fields, slot :: slots => exchangeSlot f field slot :: exchangeSlots f fields slots
  | _, slots => slots

/-- The node with each child exchanged for what `f` gives for it. Nothing else
changes. -/
def exchange (f : ChildRef → Node → Node) : Node → Node
  | program type span body => program type span (exchangeList f .body body)
  | block span statements => block span (exchangeList f .stmts statements)
  | declaration span kind declarations =>
      declaration span kind (exchangeList f .declarations declarations)
  | declarator span target init =>
      declarator span (f (.whole .id) target) (exchangeOptional f .init init)
  | importFrom span specifiers source asserts =>
      importFrom span (exchangeList f .specifiers specifiers) (f (.whole .source) source)
        (exchangeOptional f .asserts asserts)
  | importDefault span name => importDefault span (f (.whole .localName) name)
  | importNamespace span name => importNamespace span (f (.whole .localName) name)
  | importNamed span name imported =>
      importNamed span (f (.whole .localName) name) (exchangeOptional f .imported imported)
  | identifier span name declared =>
      identifier span name (exchangeOptional f .declaredType declared)
  | array span elements => array span (exchangeElements f .elements elements)
  | object span properties => object span (exchangeList f .properties properties)
  | spread span argument => spread span (f (.whole .arguments) argument)
  | unary span operator argument => unary span operator (f (.whole .argument) argument)
  | binary span operator left right =>
      binary span operator (f (.whole .left) left) (f (.whole .right) right)
  | assignment span left right =>
      assignment span (f (.whole .left) left) (f (.whole .right) right)
  | defaulted span left right =>
      defaulted span (f (.whole .left) left) (f (.whole .right) right)
  | member span target key => member span (f (.whole .object) target) (f (.whole .property) key)
  | conditional span test consequent alternate =>
      conditional span (f (.whole .test) test) (f (.whole .consequent) consequent)
        (exchangeOptional f .alternate alternate)
  | call span callee arguments typeArgs =>
      call span (f (.whole .callee) callee) (exchangeArguments f .arguments arguments)
        (exchangeOptional f .typeArguments typeArgs)
  | template span quasis expressions types =>
      template span (exchangeList f .quasis quasis) (exchangeList f .expressions expressions)
        (exchangeList f .types types)
  | sequence span expressions => sequence span (exchangeList f .expressions expressions)
  | await span argument => await span (exchangeOptional f .argument argument)
  | wrapped wrapper span expression => wrapped wrapper span (f (.whole .expression) expression)
  | cast .instantiation span expression declared typeArgs =>
      cast .instantiation span (f (.whole .expression) expression) declared
        (exchangeOptional f .typeArguments typeArgs)
  | cast kind span expression declared typeArgs =>
      cast kind span (f (.whole .expression) expression)
        (exchangeOptional f .declaredType declared) typeArgs
  | pair kind key value => pair kind (f (.whole .key) key) (f (.whole .value) value)
  | shorthand span key value =>
      shorthand span (f (.whole .key) key) (exchangeOptional f .value value)
  | objectPattern span properties declared =>
      objectPattern span (exchangeList f .properties properties)
        (exchangeOptional f .declaredType declared)
  | typeReference span name typeParams =>
      typeReference span (f (.whole .typeName) name) (exchangeOptional f .typeParams typeParams)
  | qualifiedName span left right =>
      qualifiedName span (f (.whole .left) left) (f (.whole .right) right)
  | typeArguments span params => typeArguments span (exchangeList f .params params)
  | typeLiteral span members => typeLiteral span (exchangeList f .members members)
  | propertySignature span key declared =>
      propertySignature span (f (.whole .key) key) (exchangeOptional f .declaredType declared)
  | declaredType span annotated => declaredType span (f (.whole .declaredType) annotated)
  | unionType span types => unionType span (exchangeList f .types types)
  | literalType span literal => literalType span (f (.whole .literal) literal)
  | plain form span slots rest => plain form span (exchangeSlots f form.visited slots) rest
  | leaf@(string ..) | leaf@(number ..) | leaf@(boolean ..) | leaf@(null _) | leaf@(bigint ..)
  | leaf@(regex ..) | leaf@(templatePart ..) => leaf

variable {f : ChildRef → Node → Node}

theorem itemsFrom_mapIdx {α β : Type} {item : β → Option Node} {content : α → Option Node}
    (field : Field) (index : Nat) (items : List α) (g : Nat → α → β)
    (hg : ∀ i x, item (g i x) = (content x).map (f (.element field (index + i)))) :
    itemsFrom field index ((items.mapIdx g).map item) =
      (itemsFrom field index (items.map content)).map fun c => (c.1, f c.1 c.2) := by
  induction items generalizing index g with
  | nil => rfl
  | cons x items ih =>
      have hrest := ih (index + 1) (fun i => g (i + 1)) fun i y => by
        rw [hg, Nat.add_assoc, Nat.add_comm 1 i]
      have hx := hg 0 x
      rw [Nat.add_zero] at hx
      rw [List.mapIdx_cons, List.map_cons, List.map_cons, hx]
      cases content x with
      | none => exact hrest
      | some n => exact congrArg _ hrest

theorem listChildren_exchangeList (field : Field) (items : List Node) :
    listChildren field (exchangeList f field items) =
      (listChildren field items).map fun c => (c.1, f c.1 c.2) :=
  itemsFrom_mapIdx field 0 items _ fun i n => by rw [Nat.zero_add, Option.map_some]

theorem itemsFrom_exchangeItems (field : Field) (items : List (Option Node)) :
    itemsFrom field 0 (exchangeItems f field items) =
      (itemsFrom field 0 items).map fun c => (c.1, f c.1 c.2) := by
  have hitem (i : Nat) (item : Option Node) :
      id (item.map (f (.element field i))) = (id item).map (f (.element field (0 + i))) := by
    rw [Nat.zero_add, id, id]
  have h := itemsFrom_mapIdx field 0 items (fun i item => item.map (f (.element field i))) hitem
  rwa [List.map_id, List.map_id] at h

theorem argumentChildren_exchangeArguments (field : Field) (items : List (Argument Node)) :
    argumentChildren field (exchangeArguments f field items) =
      (argumentChildren field items).map fun c => (c.1, f c.1 c.2) :=
  itemsFrom_mapIdx field 0 items _ fun i n => by
    rw [Nat.zero_add, Option.map_some, exchangeArgument]

theorem elementChildren_exchangeElements (field : Field)
    (items : List (Option (Argument Node))) :
    elementChildren field (exchangeElements f field items) =
      (elementChildren field items).map fun c => (c.1, f c.1 c.2) :=
  itemsFrom_mapIdx field 0 items _ fun i n => by
    rw [Nat.zero_add, Option.map_map, Option.map_map]
    rfl

theorem optionalChild_exchangeOptional (field : Field) (child : Option Node) :
    optionalChild field (exchangeOptional f field child) =
      (optionalChild field child).map fun c => (c.1, f c.1 c.2) := by
  cases child <;> rfl

theorem oneChild_exchange (field : Field) (child : Node) :
    oneChild field (f (.whole field) child) =
      (oneChild field child).map fun c => (c.1, f c.1 c.2) := rfl

theorem slotsChildren_exchangeSlots (fields : List (Field × Content)) (slots : List (Slot Node)) :
    slotsChildren fields (exchangeSlots f fields slots) =
      (slotsChildren fields slots).map fun c => (c.1, f c.1 c.2) := by
  induction fields generalizing slots with
  | nil => cases slots <;> rfl
  | cons field fields ih =>
      rcases slots with - | ⟨child | items, slots⟩
      · rfl
      · rw [exchangeSlots, slotsChildren, slotsChildren, ih, List.map_append, exchangeSlot,
          slotChildren, slotChildren, optionalChild_exchangeOptional]
      · rw [exchangeSlots, slotsChildren, slotsChildren, ih, List.map_append, exchangeSlot,
          slotChildren, slotChildren, itemsFrom_exchangeItems]

/-- Each child is exchanged, and keeps its reference. -/
theorem children_exchange (n : Node) :
    (n.exchange f).children = n.children.map fun c => (c.1, f c.1 c.2) := by
  cases n with
  | cast kind =>
      cases kind <;>
        simp only [exchange, children, List.map_append, oneChild_exchange,
          optionalChild_exchangeOptional]
  | _ =>
      simp only [exchange, children, List.map_append, List.map_nil, oneChild_exchange,
        optionalChild_exchangeOptional, listChildren_exchangeList,
        argumentChildren_exchangeArguments, elementChildren_exchangeElements,
        slotsChildren_exchangeSlots]

/-- Arguments that agree on whether they are spread, with related expressions. -/
structure SameArgument (R : Node → Node → Prop) (a b : Argument Node) : Prop where
  spread : b.spread = a.spread
  expression : R a.expression b.expression

variable {R : Node → Node → Prop} {field : Field}

/-- What relates each child to what it is exchanged for relates the items of a
list. -/
theorem forall₂_mapIdx {α : Type} {content : α → Option Node} {S : α → α → Prop} {index : Nat}
    {items : List α} {g : Nat → α → α}
    (hg : ∀ i x, (∀ n, content x = some n → R n (f (.element field (index + i)) n)) → S x (g i x))
    (h : ∀ c ∈ itemsFrom field index (items.map content), R c.2 (f c.1 c.2)) :
    List.Forall₂ S items (items.mapIdx g) := by
  induction items generalizing index g with
  | nil => exact .nil
  | cons x items ih =>
      rw [List.map_cons] at h
      have hrest := @ih (index + 1) fun i => g (i + 1)
      rw [List.mapIdx_cons]
      cases hx : content x with
      | none =>
          rw [hx] at h
          refine .cons (hg 0 x fun n hn => ?_) (hrest (fun i y hy => ?_) h)
          · rw [hx] at hn
            cases hn
          · exact hg (i + 1) y (by rwa [Nat.add_assoc, Nat.add_comm 1 i] at hy)
      | some n =>
          rw [hx] at h
          have ⟨hn, h⟩ := List.forall_mem_cons.1 h
          refine .cons (hg 0 x fun m hm => ?_) (hrest (fun i y hy => ?_) h)
          · rw [hx, Option.some.injEq] at hm
            exact hm ▸ hn
          · exact hg (i + 1) y (by rwa [Nat.add_assoc, Nat.add_comm 1 i] at hy)

theorem forall₂_exchangeList {items : List Node}
    (h : ∀ c ∈ listChildren field items, R c.2 (f c.1 c.2)) :
    List.Forall₂ R items (exchangeList f field items) := by
  refine forall₂_mapIdx (fun i n hn => ?_) h
  have hn := hn n rfl
  rwa [Nat.zero_add] at hn

theorem forall₂_exchangeArguments {items : List (Argument Node)}
    (h : ∀ c ∈ argumentChildren field items, R c.2 (f c.1 c.2)) :
    List.Forall₂ (SameArgument R) items (exchangeArguments f field items) := by
  refine forall₂_mapIdx (fun i argument hn => ⟨rfl, ?_⟩) h
  have hn := hn argument.expression rfl
  rwa [Nat.zero_add] at hn

theorem forall₂_exchangeElements {items : List (Option (Argument Node))}
    (h : ∀ c ∈ elementChildren field items, R c.2 (f c.1 c.2)) :
    List.Forall₂ (Option.Rel (SameArgument R)) items (exchangeElements f field items) := by
  refine forall₂_mapIdx (fun i element hn => ?_) h
  cases element with
  | none => exact .none
  | some argument =>
      have hn := hn argument.expression rfl
      rw [Nat.zero_add] at hn
      exact .some ⟨rfl, hn⟩

end StyleSense.Node
