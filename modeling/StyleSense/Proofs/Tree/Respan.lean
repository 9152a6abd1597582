/-
# Trees with other spans

A tree whose spans have all been replaced has the same shape: the same kinds,
names and texts, and the same children under the same references. Replacing
each span by itself gives back the tree.
-/

import StyleSense.Proofs.Tree.Order

namespace StyleSense

namespace Node

mutual

/-- The tree with every span replaced, also those of spread dots and of fields
that are not visited. A pair has no span of its own. -/
def mapSpans (f : Span → Span) : Node → Node
  | .program type span body => .program type (f span) (mapSpansAll f body)
  | .block span statements => .block (f span) (mapSpansAll f statements)
  | .declaration span kind declarations => .declaration (f span) kind (mapSpansAll f declarations)
  | .declarator span target init =>
      .declarator (f span) (mapSpans f target) (mapSpansOption f init)
  | .importFrom span specifiers source asserts =>
      .importFrom (f span) (mapSpansAll f specifiers) (mapSpans f source)
        (mapSpansOption f asserts)
  | .importDefault span name => .importDefault (f span) (mapSpans f name)
  | .importNamespace span name => .importNamespace (f span) (mapSpans f name)
  | .importNamed span name imported =>
      .importNamed (f span) (mapSpans f name) (mapSpansOption f imported)
  | .string span value => .string (f span) value
  | .number span value => .number (f span) value
  | .boolean span value => .boolean (f span) value
  | .null span => .null (f span)
  | .bigint span raw => .bigint (f span) raw
  | .regex span pattern flags => .regex (f span) pattern flags
  | .identifier span name declared => .identifier (f span) name (mapSpansOption f declared)
  | .array span elements => .array (f span) (mapSpansElements f elements)
  | .object span properties => .object (f span) (mapSpansAll f properties)
  | .spread span argument => .spread (f span) (mapSpans f argument)
  | .unary span operator argument => .unary (f span) operator (mapSpans f argument)
  | .binary span operator left right =>
      .binary (f span) operator (mapSpans f left) (mapSpans f right)
  | .assignment span left right => .assignment (f span) (mapSpans f left) (mapSpans f right)
  | .defaulted span left right => .defaulted (f span) (mapSpans f left) (mapSpans f right)
  | .member span target property => .member (f span) (mapSpans f target) (mapSpans f property)
  | .conditional span test consequent alternate =>
      .conditional (f span) (mapSpans f test) (mapSpans f consequent) (mapSpansOption f alternate)
  | .call span callee arguments typeArgs =>
      .call (f span) (mapSpans f callee) (mapSpansArguments f arguments)
        (mapSpansOption f typeArgs)
  | .template span quasis expressions types =>
      .template (f span) (mapSpansAll f quasis) (mapSpansAll f expressions) (mapSpansAll f types)
  | .templatePart span cooked raw => .templatePart (f span) cooked raw
  | .sequence span expressions => .sequence (f span) (mapSpansAll f expressions)
  | .await span argument => .await (f span) (mapSpansOption f argument)
  | .wrapped wrapper span expression => .wrapped wrapper (f span) (mapSpans f expression)
  | .cast kind span expression declared typeArgs =>
      .cast kind (f span) (mapSpans f expression) (mapSpansOption f declared)
        (mapSpansOption f typeArgs)
  | .pair kind key value => .pair kind (mapSpans f key) (mapSpans f value)
  | .shorthand span key value => .shorthand (f span) (mapSpans f key) (mapSpansOption f value)
  | .objectPattern span properties declared =>
      .objectPattern (f span) (mapSpansAll f properties) (mapSpansOption f declared)
  | .typeReference span name typeParams =>
      .typeReference (f span) (mapSpans f name) (mapSpansOption f typeParams)
  | .qualifiedName span left right =>
      .qualifiedName (f span) (mapSpans f left) (mapSpans f right)
  | .typeArguments span params => .typeArguments (f span) (mapSpansAll f params)
  | .typeLiteral span members => .typeLiteral (f span) (mapSpansAll f members)
  | .propertySignature span key declared =>
      .propertySignature (f span) (mapSpans f key) (mapSpansOption f declared)
  | .declaredType span annotated => .declaredType (f span) (mapSpans f annotated)
  | .unionType span types => .unionType (f span) (mapSpansAll f types)
  | .literalType span literal => .literalType (f span) (mapSpans f literal)
  | .plain form span slots rest =>
      .plain form (f span) (mapSpansSlots f slots) (mapSpansSlots f rest)

/-- Nodes with every span replaced. -/
def mapSpansAll (f : Span → Span) : List Node → List Node
  | [] => []
  | node :: rest => mapSpans f node :: mapSpansAll f rest

/-- A node that may be absent with every span replaced. -/
def mapSpansOption (f : Span → Span) : Option Node → Option Node
  | none => none
  | some node => some (mapSpans f node)

/-- Arguments with every span replaced. -/
def mapSpansArguments (f : Span → Span) : List (Argument Node) → List (Argument Node)
  | [] => []
  | ⟨dots, expression⟩ :: rest =>
      ⟨dots.map f, mapSpans f expression⟩ :: mapSpansArguments f rest

/-- Array elements with every span replaced. -/
def mapSpansElements (f : Span → Span) :
    List (Option (Argument Node)) → List (Option (Argument Node))
  | [] => []
  | none :: rest => none :: mapSpansElements f rest
  | some ⟨dots, expression⟩ :: rest =>
      some ⟨dots.map f, mapSpans f expression⟩ :: mapSpansElements f rest

/-- Slots with every span replaced. -/
def mapSpansSlots (f : Span → Span) : List (Slot Node) → List (Slot Node)
  | [] => []
  | .one child :: rest => .one (mapSpansOption f child) :: mapSpansSlots f rest
  | .many items :: rest => .many (mapSpansItems f items) :: mapSpansSlots f rest

/-- Items of a list with holes with every span replaced. -/
def mapSpansItems (f : Span → Span) : List (Option Node) → List (Option Node)
  | [] => []
  | none :: rest => none :: mapSpansItems f rest
  | some node :: rest => some (mapSpans f node) :: mapSpansItems f rest

end

section

variable {f : Span → Span}

mutual

/-- Where every span is replaced by itself, so is the tree. -/
theorem mapSpans_eq_self (h : ∀ span, f span = span) : ∀ n : Node, n.mapSpans f = n
  | .program type span body => by rw [mapSpans, h, mapSpansAll_eq_self h body]
  | .block span statements => by rw [mapSpans, h, mapSpansAll_eq_self h statements]
  | .declaration span kind declarations => by rw [mapSpans, h, mapSpansAll_eq_self h declarations]
  | .declarator span target init => by
      rw [mapSpans, h, mapSpans_eq_self h target, mapSpansOption_eq_self h init]
  | .importFrom span specifiers source asserts => by
      rw [mapSpans, h, mapSpansAll_eq_self h specifiers, mapSpans_eq_self h source,
        mapSpansOption_eq_self h asserts]
  | .importDefault span name => by rw [mapSpans, h, mapSpans_eq_self h name]
  | .importNamespace span name => by rw [mapSpans, h, mapSpans_eq_self h name]
  | .importNamed span name imported => by
      rw [mapSpans, h, mapSpans_eq_self h name, mapSpansOption_eq_self h imported]
  | .string span value => by rw [mapSpans, h]
  | .number span value => by rw [mapSpans, h]
  | .boolean span value => by rw [mapSpans, h]
  | .null span => by rw [mapSpans, h]
  | .bigint span raw => by rw [mapSpans, h]
  | .regex span pattern flags => by rw [mapSpans, h]
  | .identifier span name declared => by rw [mapSpans, h, mapSpansOption_eq_self h declared]
  | .array span elements => by rw [mapSpans, h, mapSpansElements_eq_self h elements]
  | .object span properties => by rw [mapSpans, h, mapSpansAll_eq_self h properties]
  | .spread span argument => by rw [mapSpans, h, mapSpans_eq_self h argument]
  | .unary span operator argument => by rw [mapSpans, h, mapSpans_eq_self h argument]
  | .binary span operator left right => by
      rw [mapSpans, h, mapSpans_eq_self h left, mapSpans_eq_self h right]
  | .assignment span left right => by
      rw [mapSpans, h, mapSpans_eq_self h left, mapSpans_eq_self h right]
  | .defaulted span left right => by
      rw [mapSpans, h, mapSpans_eq_self h left, mapSpans_eq_self h right]
  | .member span target property => by
      rw [mapSpans, h, mapSpans_eq_self h target, mapSpans_eq_self h property]
  | .conditional span test consequent alternate => by
      rw [mapSpans, h, mapSpans_eq_self h test, mapSpans_eq_self h consequent,
        mapSpansOption_eq_self h alternate]
  | .call span callee arguments typeArgs => by
      rw [mapSpans, h, mapSpans_eq_self h callee, mapSpansArguments_eq_self h arguments,
        mapSpansOption_eq_self h typeArgs]
  | .template span quasis expressions types => by
      rw [mapSpans, h, mapSpansAll_eq_self h quasis, mapSpansAll_eq_self h expressions,
        mapSpansAll_eq_self h types]
  | .templatePart span cooked raw => by rw [mapSpans, h]
  | .sequence span expressions => by rw [mapSpans, h, mapSpansAll_eq_self h expressions]
  | .await span argument => by rw [mapSpans, h, mapSpansOption_eq_self h argument]
  | .wrapped wrapper span expression => by rw [mapSpans, h, mapSpans_eq_self h expression]
  | .cast kind span expression declared typeArgs => by
      rw [mapSpans, h, mapSpans_eq_self h expression, mapSpansOption_eq_self h declared,
        mapSpansOption_eq_self h typeArgs]
  | .pair kind key value => by rw [mapSpans, mapSpans_eq_self h key, mapSpans_eq_self h value]
  | .shorthand span key value => by
      rw [mapSpans, h, mapSpans_eq_self h key, mapSpansOption_eq_self h value]
  | .objectPattern span properties declared => by
      rw [mapSpans, h, mapSpansAll_eq_self h properties, mapSpansOption_eq_self h declared]
  | .typeReference span name typeParams => by
      rw [mapSpans, h, mapSpans_eq_self h name, mapSpansOption_eq_self h typeParams]
  | .qualifiedName span left right => by
      rw [mapSpans, h, mapSpans_eq_self h left, mapSpans_eq_self h right]
  | .typeArguments span params => by rw [mapSpans, h, mapSpansAll_eq_self h params]
  | .typeLiteral span members => by rw [mapSpans, h, mapSpansAll_eq_self h members]
  | .propertySignature span key declared => by
      rw [mapSpans, h, mapSpans_eq_self h key, mapSpansOption_eq_self h declared]
  | .declaredType span annotated => by rw [mapSpans, h, mapSpans_eq_self h annotated]
  | .unionType span types => by rw [mapSpans, h, mapSpansAll_eq_self h types]
  | .literalType span literal => by rw [mapSpans, h, mapSpans_eq_self h literal]
  | .plain form span slots rest => by
      rw [mapSpans, h, mapSpansSlots_eq_self h slots, mapSpansSlots_eq_self h rest]

theorem mapSpansAll_eq_self (h : ∀ span, f span = span) :
    ∀ ns : List Node, mapSpansAll f ns = ns
  | [] => rfl
  | n :: ns => by rw [mapSpansAll, mapSpans_eq_self h n, mapSpansAll_eq_self h ns]

theorem mapSpansOption_eq_self (h : ∀ span, f span = span) :
    ∀ o : Option Node, mapSpansOption f o = o
  | none => rfl
  | some n => by rw [mapSpansOption, mapSpans_eq_self h n]

theorem mapSpansArguments_eq_self (h : ∀ span, f span = span) :
    ∀ arguments : List (Argument Node), mapSpansArguments f arguments = arguments
  | [] => rfl
  | ⟨dots, expression⟩ :: rest => by
      rw [mapSpansArguments, mapSpans_eq_self h expression, mapSpansArguments_eq_self h rest,
        funext h, Option.map_id']

theorem mapSpansElements_eq_self (h : ∀ span, f span = span) :
    ∀ elements : List (Option (Argument Node)), mapSpansElements f elements = elements
  | [] => rfl
  | none :: rest => by rw [mapSpansElements, mapSpansElements_eq_self h rest]
  | some ⟨dots, expression⟩ :: rest => by
      rw [mapSpansElements, mapSpans_eq_self h expression, mapSpansElements_eq_self h rest,
        funext h, Option.map_id']

theorem mapSpansSlots_eq_self (h : ∀ span, f span = span) :
    ∀ slots : List (Slot Node), mapSpansSlots f slots = slots
  | [] => rfl
  | .one child :: rest => by
      rw [mapSpansSlots, mapSpansOption_eq_self h child, mapSpansSlots_eq_self h rest]
  | .many items :: rest => by
      rw [mapSpansSlots, mapSpansItems_eq_self h items, mapSpansSlots_eq_self h rest]

theorem mapSpansItems_eq_self (h : ∀ span, f span = span) :
    ∀ items : List (Option Node), mapSpansItems f items = items
  | [] => rfl
  | none :: rest => by rw [mapSpansItems, mapSpansItems_eq_self h rest]
  | some n :: rest => by rw [mapSpansItems, mapSpans_eq_self h n, mapSpansItems_eq_self h rest]

end

end

/-- An argument with every span replaced. -/
def mapArgument (f : Span → Span) (argument : Argument Node) : Argument Node :=
  ⟨argument.spread.map f, argument.expression.mapSpans f⟩

variable (f : Span → Span)

theorem mapSpansAll_eq_map (ns : List Node) : mapSpansAll f ns = ns.map (mapSpans f) := by
  induction ns with
  | nil => rfl
  | cons n ns ih => rw [mapSpansAll, ih, List.map_cons]

theorem mapSpansArguments_eq_map (arguments : List (Argument Node)) :
    mapSpansArguments f arguments = arguments.map (mapArgument f) := by
  induction arguments with
  | nil => rfl
  | cons argument rest ih => rw [mapSpansArguments, ih, List.map_cons, mapArgument]

theorem mapSpansElements_eq_map (elements : List (Option (Argument Node))) :
    mapSpansElements f elements = elements.map (Option.map (mapArgument f)) := by
  induction elements with
  | nil => rfl
  | cons element rest ih =>
      cases element with
      | none => rw [mapSpansElements, ih, List.map_cons, Option.map_none]
      | some argument => rw [mapSpansElements, ih, List.map_cons, Option.map_some, mapArgument]

theorem mapSpansItems_eq_map (items : List (Option Node)) :
    mapSpansItems f items = items.map (Option.map (mapSpans f)) := by
  induction items with
  | nil => rfl
  | cons item rest ih =>
      cases item with
      | none => rw [mapSpansItems, ih, List.map_cons, Option.map_none]
      | some n => rw [mapSpansItems, ih, List.map_cons, Option.map_some]

/-- A child with every span replaced. -/
def mapChild (c : ChildRef × Node) : ChildRef × Node :=
  (c.1, c.2.mapSpans f)

theorem itemsFrom_map (field : Field) (index : Nat) (items : List (Option Node)) :
    itemsFrom field index (items.map (Option.map (mapSpans f))) =
      (itemsFrom field index items).map (mapChild f) := by
  induction items generalizing index with
  | nil => rfl
  | cons item rest ih =>
      cases item with
      | none => exact ih (index + 1)
      | some n => exact congrArg (mapChild f (.element field index, n) :: ·) (ih (index + 1))

theorem oneChild_map (field : Field) (n : Node) :
    oneChild field (n.mapSpans f) = (oneChild field n).map (mapChild f) := rfl

theorem optionalChild_map (field : Field) (o : Option Node) :
    optionalChild field (mapSpansOption f o) = (optionalChild field o).map (mapChild f) := by
  cases o <;> rfl

theorem listChildren_map (field : Field) (ns : List Node) :
    listChildren field (mapSpansAll f ns) = (listChildren field ns).map (mapChild f) := by
  rw [listChildren, listChildren, ← itemsFrom_map, mapSpansAll_eq_map]
  simp only [List.map_map, Function.comp_def, Option.map_some]

theorem argumentChildren_map (field : Field) (arguments : List (Argument Node)) :
    argumentChildren field (mapSpansArguments f arguments) =
      (argumentChildren field arguments).map (mapChild f) := by
  rw [argumentChildren, argumentChildren, ← itemsFrom_map, mapSpansArguments_eq_map]
  simp only [List.map_map, Function.comp_def, Option.map_some, mapArgument]

theorem elementChildren_map (field : Field) (elements : List (Option (Argument Node))) :
    elementChildren field (mapSpansElements f elements) =
      (elementChildren field elements).map (mapChild f) := by
  rw [elementChildren, elementChildren, ← itemsFrom_map, mapSpansElements_eq_map]
  simp only [List.map_map, Function.comp_def, Option.map_map, mapArgument]

theorem slotsChildren_map (fields : List (Field × Content)) (slots : List (Slot Node)) :
    slotsChildren fields (mapSpansSlots f slots) =
      (slotsChildren fields slots).map (mapChild f) := by
  induction fields generalizing slots with
  | nil => rfl
  | cons field fields ih =>
      rcases slots with - | ⟨child | items, rest⟩
      · rfl
      · rw [mapSpansSlots, slotsChildren, slotsChildren, slotChildren, slotChildren, ih,
          optionalChild_map, List.map_append]
      · rw [mapSpansSlots, slotsChildren, slotsChildren, slotChildren, slotChildren, ih,
          mapSpansItems_eq_map, itemsFrom_map, List.map_append]

/-- The children are those of the tree as it was, under the same references. -/
theorem children_mapSpans (n : Node) :
    (n.mapSpans f).children = n.children.map (mapChild f) := by
  cases n with
  | cast kind =>
      cases kind <;>
        simp only [mapSpans, children, List.map_append, oneChild_map, optionalChild_map]
  | _ =>
      simp only [mapSpans, children, List.map_append, List.map_nil, oneChild_map,
        optionalChild_map, listChildren_map, argumentChildren_map, elementChildren_map,
        slotsChildren_map]

theorem identifierName?_mapSpans (n : Node) :
    (n.mapSpans f).identifierName? = n.identifierName? := by
  cases n <;> rfl

theorem stringValue?_mapSpans (n : Node) : (n.mapSpans f).stringValue? = n.stringValue? := by
  cases n <;> rfl

theorem exportName?_mapSpans (n : Node) : (n.mapSpans f).exportName? = n.exportName? := by
  rw [exportName?, exportName?, identifierName?_mapSpans, stringValue?_mapSpans]

end Node

namespace Visitor

variable {σ α : Type}

/-- The visitor that is shown each node with its spans replaced. -/
def respan (v : Visitor σ α) (f : Span → Span) : Visitor σ α where
  wildcard node := v.wildcard (node.mapSpans f)
  enter node parent := v.enter (node.mapSpans f) (parent.map (Node.mapSpans f))
  leave node := v.leave (node.mapSpans f)
  canceled := v.canceled

theorem runAll_map {β γ : Type} (h : β → γ) (g : γ → σ → Option Halt × σ) (xs : List β)
    (memory : σ) : runAll g (xs.map h) memory = runAll (fun x => g (h x)) xs memory := by
  induction xs generalizing memory with
  | nil => rfl
  | cons x xs ih =>
      rcases hstep : g (h x) memory with ⟨halt, next⟩
      rw [List.map_cons]
      cases halt with
      | none =>
          rw [runAll_cons_of_none hstep, runAll_cons_of_none (f := fun x => g (h x)) hstep, ih]
      | some halt =>
          rw [runAll_cons_of_some hstep, runAll_cons_of_some (f := fun x => g (h x)) hstep]

theorem runAll_congr {β : Type} {f g : β → σ → Option Halt × σ} {xs : List β}
    (h : ∀ x ∈ xs, f x = g x) (memory : σ) : runAll f xs memory = runAll g xs memory := by
  induction xs generalizing memory with
  | nil => rfl
  | cons x xs ih =>
      have hrest := ih fun y hmem => h y (List.mem_cons_of_mem _ hmem)
      rcases hf : f x memory with ⟨halt, next⟩
      have hg : g x memory = (halt, next) := by rw [← h x List.mem_cons_self, hf]
      cases halt with
      | none => rw [runAll_cons_of_none hf, runAll_cons_of_none hg, hrest]
      | some halt => rw [runAll_cons_of_some hf, runAll_cons_of_some hg]

/-- A visit of the tree with its spans replaced is the visit of the tree by the
visitor that is shown it so. -/
theorem visit_mapSpans (v : Visitor σ α) (f : Span → Span) (node : Node) (parent : Option Node)
    (state : α) (memory : σ) :
    v.visit (node.mapSpans f) (parent.map (Node.mapSpans f)) state memory =
      (v.respan f).visit node parent state memory := by
  induction node using Node.induction generalizing parent state memory with
  | step node ih =>
      have hbelow : ∀ (handed : α) (ignored : List ChildRef) (next : σ),
          v.visitBelow (node.mapSpans f) handed ignored next =
            (v.respan f).visitBelow node handed ignored next := by
        intro handed ignored next
        have hloop : runAll (v.visitChild (node.mapSpans f) handed ignored)
            (node.mapSpans f).children next =
              runAll ((v.respan f).visitChild node handed ignored) node.children next := by
          rw [Node.children_mapSpans, runAll_map]
          apply runAll_congr
          intro c hc
          funext m
          have hchild := ih c hc (some node) handed m
          rw [Option.map_some] at hchild
          simp only [visitChild, Node.mapChild, hchild]
        simp only [visitBelow, hloop]
        rfl
      rw [visit_eq, visit_eq]
      simp only [hbelow]
      rfl

theorem walk_mapSpans (v : Visitor σ α) (f : Span → Span) (root : Node) (state : α)
    (memory : σ) :
    v.walk (root.mapSpans f) state memory = (v.respan f).walk root state memory := by
  have hvisit := v.visit_mapSpans f root none state memory
  rw [Option.map_none] at hvisit
  rw [walk, walk, hvisit]

end Visitor

end StyleSense
