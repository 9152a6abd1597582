/-
# What nodes hold

A node holds the nodes in the fields of its record, and its children are those
that the traversal rule of its kind names. Rules and records are two tables,
kept side by side by hand. Here the records are given on their own, so that the
rules can be compared with them: kind by kind the children of a node are what it
holds, but for the fields that no rule names.
-/

import Mathlib.Data.List.Perm.Basic
import Mathlib.Data.List.ReduceOption
import StyleSense.Proofs.Tree.Order

namespace StyleSense

namespace Form

/-- The fields of a function record. A method of a class has them besides its key. -/
def functionRecord : List Field :=
  [.identifier, .params, .decorators, .body, .typeParameters, .returnType]

/-- The fields that may hold nodes, as the record of the form declares them. Forms
in one line share a record. -/
def record : Form → List Field
  | .emptyStatement | .debuggerStatement | .thisExpression | .superKeyword | .importKeyword
  | .invalid | .jsxOpeningFragment | .jsxClosingFragment | .jsxEmptyExpression | .tsThisType => []
  | .metaProperty | .tsKeywordType => []
  | .jsxText => []
  | .tsInterfaceBody | .tsModuleBlock => [.body]
  | .expressionStatement | .decorator | .jsxExpressionContainer | .jsxSpreadChild
  | .exportDefaultExpression | .tsExternalModuleReference | .tsExportAssignment => [.expression]
  | .jsxClosingElement | .exportNamespaceSpecifier => [.name]
  | .privateName => [.id]
  | .withStatement => [.object, .body]
  | .returnStatement | .throwStatement | .yieldExpression => [.argument]
  | .labeledStatement => [.label, .body]
  | .breakStatement | .continueStatement => [.label]
  | .ifStatement => [.test, .consequent, .alternate]
  | .switchStatement => [.discriminant, .cases]
  | .switchCase => [.test, .consequent]
  | .tryStatement => [.block, .handler, .finalizer]
  | .catchClause => [.param, .body]
  | .whileStatement | .doWhileStatement => [.test, .body]
  | .forStatement => [.init, .test, .update, .body]
  | .forInStatement | .forOfStatement => [.left, .right, .body]
  | .functionDeclaration | .functionExpression => functionRecord
  | .arrowFunctionExpression => [.params, .body, .typeParameters, .returnType]
  | .methodProperty => [.key, .params, .decorators, .body, .typeParameters, .returnType]
  | .classDeclaration | .classExpression =>
      [.identifier, .body, .superClass, .typeParams, .superTypeParams, .implements, .decorators]
  | .constructor => [.key, .params, .body]
  | .classMethod | .privateMethod => .key :: functionRecord
  | .classProperty | .privateProperty => [.key, .value, .declaredType, .decorators]
  | .staticBlock => [.body]
  | .parameter => [.decorators, .pat]
  | .updateExpression => [.argument]
  | .jsxMemberExpression => [.object, .property]
  | .superPropExpression => [.obj, .property]
  | .newExpression => [.callee, .arguments, .typeArguments]
  | .taggedTemplateExpression => [.tag, .typeParameters, .template]
  | .optionalChainingExpression => [.base]
  | .jsxElement | .jsxFragment => [.opening, .children, .closing]
  | .jsxOpeningElement => [.name, .attributes, .typeArguments]
  | .jsxAttribute => [.name, .value]
  | .jsxNamespacedName => [.spaceName, .name]
  | .exportDeclaration => [.declaration]
  | .exportNamedDeclaration => [.specifiers, .source, .asserts]
  | .exportAllDeclaration => [.source, .asserts]
  | .exportDefaultDeclaration => [.decl]
  | .exportSpecifier => [.orig, .exported]
  | .exportDefaultSpecifier => [.exported]
  | .arrayPattern => [.elements, .declaredType]
  | .restElement => [.argument, .declaredType]
  | .getterProperty => [.key, .declaredType, .body]
  | .setterProperty => [.key, .param, .body]
  | .tsOptionalType | .tsRestType | .tsParenthesizedType => [.declaredType]
  | .tsTypeOperator => [.declaredType]
  | .tsTypeParameterDeclaration => [.parameters]
  | .tsTypeParameter => [.name, .constraint, .defaultType]
  | .tsParameterProperty => [.decorators, .param]
  | .tsCallSignatureDeclaration | .tsConstructSignatureDeclaration | .tsFunctionType
  | .tsConstructorType => [.params, .declaredType, .typeParams]
  | .tsGetterSignature => [.key, .declaredType]
  | .tsSetterSignature => [.key, .param]
  | .tsMethodSignature => [.key, .params, .typeAnn, .typeParams]
  | .tsIndexSignature => [.params, .declaredType]
  | .tsTypePredicate => [.paramName, .declaredType]
  | .tsImportType => [.argument, .qualifier, .typeArguments]
  | .tsTypeQuery => [.exprName, .typeArguments]
  | .tsArrayType => [.elemType]
  | .tsTupleType => [.elemTypes]
  | .tsTupleElement => [.label, .ty]
  | .tsIntersectionType => [.types]
  | .tsConditionalType => [.checkType, .extendsType, .trueType, .falseType]
  | .tsInferType => [.typeParam]
  | .tsIndexedAccessType => [.objectType, .indexType]
  | .tsMappedType => [.typeParam, .nameType, .declaredType]
  | .tsInterfaceDeclaration => [.id, .typeParams, .extendsList, .body]
  | .tsExpressionWithTypeArguments => [.expression, .typeArguments]
  | .tsTypeAliasDeclaration => [.id, .typeParams, .declaredType]
  | .tsEnumDeclaration => [.id, .members]
  | .tsEnumMember => [.id, .init]
  | .tsModuleDeclaration | .tsNamespaceDeclaration => [.id, .body]
  | .tsImportEqualsDeclaration => [.id, .moduleRef]
  | .tsNamespaceExportDeclaration => [.id]

/-- The fields that a form's slots stand for. -/
def fields (form : Form) : List Field :=
  (form.visited ++ form.unvisited).map Prod.fst

/-- Every field of a record is visited or not, and none is in the table twice. -/
theorem record_perm (form : Form) : form.record.Perm form.fields := by
  cases form <;> decide

theorem nodup_fields (form : Form) : form.fields.Nodup := by
  cases form <;> decide

end Form

/-- The nodes in a slot. -/
def Slot.nodes {α : Type} : Slot α → List α
  | .one child => child.toList
  | .many items => items.reduceOption

namespace Node

/-- The nodes in the field of this name. -/
def inField (entries : List (Field × Slot Node)) (field : Field) : List Node :=
  ((entries.lookup field).map Slot.nodes).getD []

/-- What a node holds: all nodes in the fields of its record, in the order in which
the record declares them. -/
def held : Node → List Node
  | program _ _ body => body
  | block _ statements => statements
  | declaration _ _ declarations => declarations
  | declarator _ target init => target :: init.toList
  | importFrom _ specifiers source asserts => specifiers ++ source :: asserts.toList
  | importDefault _ name => [name]
  | importNamespace _ name => [name]
  | importNamed _ name imported => name :: imported.toList
  | string .. | number .. | boolean .. | null .. | bigint .. | regex .. | templatePart .. => []
  | identifier _ _ declared => declared.toList
  | array _ elements => elements.reduceOption.map Argument.expression
  | object _ properties => properties
  | spread _ argument => [argument]
  | unary _ _ argument => [argument]
  | binary _ _ left right => [left, right]
  | assignment _ left right => [left, right]
  | defaulted _ left right => [left, right]
  | member _ target key => [target, key]
  | conditional _ test consequent alternate => test :: consequent :: alternate.toList
  | call _ callee arguments typeArgs =>
      callee :: (arguments.map Argument.expression ++ typeArgs.toList)
  | template _ quasis expressions types => quasis ++ expressions ++ types
  | sequence _ expressions => expressions
  | await _ argument => argument.toList
  | wrapped _ _ expression => [expression]
  | cast _ _ expression declared typeArgs => expression :: (declared.toList ++ typeArgs.toList)
  | pair _ key value => [key, value]
  | shorthand _ key value => key :: value.toList
  | objectPattern _ properties declared => properties ++ declared.toList
  | typeReference _ name typeParams => name :: typeParams.toList
  | qualifiedName _ left right => [left, right]
  | typeArguments _ params => params
  | typeLiteral _ members => members
  | propertySignature _ key declared => key :: declared.toList
  | declaredType _ annotated => [annotated]
  | unionType _ types => types
  | literalType _ literal => [literal]
  | plain form _ slots rest => form.record.flatMap (inField (form.fields.zip (slots ++ rest)))

/-- What a node holds in fields that the rule of its kind does not name. -/
def passedOver : Node → List Node
  | cast .instantiation _ _ declared _ => declared.toList
  | cast _ _ _ _ typeArgs => typeArgs.toList
  | plain _ _ _ rest => rest.flatMap Slot.nodes
  | _ => []

/-- Nodes as a record can be: a plain one has a slot for every field of its form. -/
def Fits : Node → Prop
  | plain form _ slots rest =>
      slots.length = form.visited.length ∧ rest.length = form.unvisited.length
  | _ => True

section

variable {α : Type} {field : Field}

theorem map_snd_itemsFrom (index : Nat) (items : List (Option α)) :
    (itemsFrom field index items).map Prod.snd = items.reduceOption := by
  induction items generalizing index with
  | nil => rfl
  | cons item items ih =>
      cases item with
      | none => exact ih (index + 1)
      | some x => rw [itemsFrom, List.map_cons, ih, List.reduceOption_cons_of_some]

theorem map_snd_oneChild (child : α) : (oneChild field child).map Prod.snd = [child] := rfl

theorem map_snd_optionalChild (child : Option α) :
    (optionalChild field child).map Prod.snd = child.toList := by
  cases child <;> rfl

theorem reduceOption_map_some {β : Type} (f : α → β) (items : List α) :
    (items.map fun item => some (f item)).reduceOption = items.map f := by
  rw [List.reduceOption, List.filterMap_map]
  exact congrFun List.filterMap_eq_map items

theorem map_snd_listChildren (items : List α) :
    (listChildren field items).map Prod.snd = items := by
  rw [listChildren, map_snd_itemsFrom]
  exact (reduceOption_map_some id items).trans (List.map_id items)

theorem map_snd_argumentChildren (items : List (Argument α)) :
    (argumentChildren field items).map Prod.snd = items.map Argument.expression := by
  rw [argumentChildren, map_snd_itemsFrom, reduceOption_map_some]

theorem map_snd_elementChildren (items : List (Option (Argument α))) :
    (elementChildren field items).map Prod.snd =
      items.reduceOption.map Argument.expression := by
  rw [elementChildren, map_snd_itemsFrom]
  exact List.reduceOption_map

theorem map_snd_slotChildren (slot : Slot α) :
    (slotChildren field slot).map Prod.snd = slot.nodes := by
  cases slot with
  | one child => exact map_snd_optionalChild child
  | many items => exact map_snd_itemsFrom 0 items

theorem map_snd_slotsChildren {fields : List (Field × Content)} {slots : List (Slot α)}
    (h : slots.length = fields.length) :
    (slotsChildren fields slots).map Prod.snd = slots.flatMap Slot.nodes := by
  induction fields generalizing slots with
  | nil =>
      rw [List.length_eq_zero_iff.1 h]
      rfl
  | cons first fields ih =>
      cases slots with
      | nil => cases h
      | cons slot slots =>
          rw [slotsChildren, List.map_append, map_snd_slotChildren, ih (Nat.succ.inj h),
            List.flatMap_cons]

end

/-- Looking up every field of a list that has each once gives all slots. -/
theorem flatMap_inField {fields : List Field} (hnodup : fields.Nodup) {slots : List (Slot Node)}
    (h : slots.length = fields.length) :
    fields.flatMap (inField (fields.zip slots)) = slots.flatMap Slot.nodes := by
  induction fields generalizing slots with
  | nil =>
      rw [List.length_eq_zero_iff.1 h]
      rfl
  | cons first fields ih =>
      cases slots with
      | nil => cases h
      | cons slot slots =>
          obtain ⟨hfresh, hnodup⟩ := List.nodup_cons.1 hnodup
          have hfirst : inField ((first, slot) :: fields.zip slots) first = slot.nodes := by
            rw [inField, List.lookup_cons_self]
            rfl
          have hothers : ∀ field ∈ fields,
              inField ((first, slot) :: fields.zip slots) field =
                inField (fields.zip slots) field := by
            intro field hmem
            have hne : field ≠ first := fun heq => hfresh (heq ▸ hmem)
            rw [inField, List.lookup_cons, beq_false_of_ne hne]
            rfl
          rw [List.zip_cons_cons, List.flatMap_cons, List.flatMap_cons, hfirst,
            List.flatMap_congr hothers, ih hnodup (Nat.succ.inj h)]

theorem held_plain {form : Form} {span : Span} {slots rest : List (Slot Node)}
    (h : (plain form span slots rest).Fits) :
    (plain form span slots rest).held.Perm ((slots ++ rest).flatMap Slot.nodes) := by
  have hlength : (slots ++ rest).length = form.fields.length := by
    rw [List.length_append, h.1, h.2, Form.fields, List.length_map, List.length_append]
  rw [held, ← flatMap_inField form.nodup_fields hlength]
  exact form.record_perm.flatMap_right _

/-- What a node holds is its children and what its rule passes over, each once. -/
theorem held_perm {n : Node} (h : n.Fits) :
    n.held.Perm (n.children.map Prod.snd ++ n.passedOver) := by
  cases n with
  | plain form span slots rest =>
      refine (held_plain h).trans ?_
      rw [children, map_snd_slotsChildren h.1, List.flatMap_append]
      exact List.Perm.refl _
  | declarator span target init =>
      simp only [held, children, passedOver, List.map_append, map_snd_oneChild,
        map_snd_optionalChild, List.append_nil]
      exact (List.perm_append_comm : ([target] ++ init.toList).Perm _)
  | cast kind span expression declared typeArgs =>
      cases kind with
      | instantiation =>
          simp only [held, children, passedOver, List.map_append, map_snd_oneChild,
            map_snd_optionalChild, List.cons_append, List.nil_append]
          exact List.perm_append_comm.cons expression
      | asType | satisfies | assertion =>
          simp only [held, children, passedOver, List.map_append, map_snd_oneChild,
            map_snd_optionalChild, List.cons_append, List.nil_append]
          exact List.Perm.refl _
  | _ =>
      simp only [held, children, passedOver, List.map_append, List.map_nil, map_snd_oneChild,
        map_snd_optionalChild, map_snd_listChildren, map_snd_argumentChildren,
        map_snd_elementChildren, List.append_nil, List.cons_append, List.nil_append,
        List.append_assoc, List.Perm.refl]

theorem mem_slots_of_mem_held {form : Form} {span : Span} {slots rest : List (Slot Node)} {m : Node}
    (h : m ∈ (plain form span slots rest).held) : ∃ slot ∈ slots ++ rest, m ∈ slot.nodes := by
  obtain ⟨field, -, hmem⟩ := List.mem_flatMap.1 h
  rw [inField] at hmem
  cases hlookup : (form.fields.zip (slots ++ rest)).lookup field with
  | none =>
      rw [hlookup] at hmem
      exact absurd hmem List.not_mem_nil
  | some slot =>
      rw [hlookup] at hmem
      obtain ⟨before, after, heq, -⟩ := List.lookup_eq_some_iff.1 hlookup
      have hpair : (field, slot) ∈ form.fields.zip (slots ++ rest) := by
        rw [heq]
        exact List.mem_append_right _ List.mem_cons_self
      exact ⟨slot, (List.of_mem_zip hpair).2, hmem⟩

theorem sizeOf_lt_of_mem_nodes {slot : Slot Node} {m : Node} (h : m ∈ slot.nodes) :
    sizeOf m < sizeOf slot := by
  cases slot with
  | one child =>
      cases child with
      | none => cases h
      | some child =>
          cases List.mem_singleton.1 h
          simp
          omega
  | many items =>
      have hitem := List.sizeOf_lt_of_mem (List.reduceOption_mem_iff.1 h)
      simp at hitem ⊢
      omega

theorem sizeOf_lt_of_mem_toList {child : Option Node} {m : Node} (h : m ∈ child.toList) :
    sizeOf m < sizeOf child := by
  rw [Option.mem_toList.1 h]
  simp

theorem sizeOf_lt_of_mem_held {n m : Node} (h : m ∈ n.held) : sizeOf m < sizeOf n := by
  cases n with
  | plain form span slots rest =>
      obtain ⟨slot, hslot, hmem⟩ := mem_slots_of_mem_held h
      have hnode := sizeOf_lt_of_mem_nodes hmem
      rcases List.mem_append.1 hslot with hslot | hslot <;>
        have hlist := List.sizeOf_lt_of_mem hslot <;> simp <;> omega
  | cast kind span expression declared typeArgs =>
      simp only [held, List.mem_cons, List.mem_append] at h
      rcases h with rfl | h | h
      · simp
        omega
      all_goals
        have hnode := sizeOf_lt_of_mem_toList h
        simp
        omega
  | _ =>
      have hmem := (held_perm (by trivial)).mem_iff.1 h
      simp only [passedOver, List.append_nil] at hmem
      obtain ⟨c, hc, rfl⟩ := List.mem_map.1 hmem
      exact sizeOf_lt_of_mem_children hc

/-- A node and all that is held by it, by what it holds, and so on. -/
def everything (n : Node) : List Node :=
  n :: n.held.attach.flatMap fun m => everything m.1
termination_by sizeOf n
decreasing_by exact sizeOf_lt_of_mem_held m.2

theorem everything_eq (n : Node) : n.everything = n :: n.held.flatMap everything := by
  rw [everything, List.flatMap_subtype (g := everything) fun _ _ => rfl, List.unattach_attach]

theorem mem_everything_self (n : Node) : n ∈ n.everything := by
  rw [everything_eq]
  exact List.mem_cons_self

theorem everything_subset {n m : Node} (h : m ∈ n.held) : m.everything ⊆ n.everything := by
  rw [everything_eq n]
  exact fun other hother => List.mem_cons_of_mem _ (List.mem_flatMap.2 ⟨m, h, hother⟩)

/-- What a walk down the children never comes to: what the rule of some kind passes
over on the way, with all that is held there. -/
def lost (n : Node) : List Node :=
  n.preorder.flatMap fun m => m.passedOver.flatMap everything

theorem lost_eq (n : Node) :
    n.lost = n.passedOver.flatMap everything ++ n.children.flatMap fun c => c.2.lost := by
  rw [lost, preorder_eq, List.flatMap_cons, List.flatMap_assoc]
  rfl

/-- A tree is the nodes that are reached through children, and those that are lost. -/
theorem everything_perm {root : Node} (h : ∀ n ∈ root.everything, n.Fits) :
    root.everything.Perm (root.preorder ++ root.lost) := by
  induction root using Node.induction with
  | step root ih =>
      have hroot := held_perm (h root (mem_everything_self root))
      have hbelow : (root.children.flatMap fun c => c.2.everything).Perm
          ((root.children.flatMap fun c => c.2.preorder) ++
            root.children.flatMap fun c => c.2.lost) := by
        refine (List.Perm.flatMap_left _ fun c hc => ih c hc fun n hn => h n ?_).trans
          (List.flatMap_append_perm _ _ _).symm
        refine everything_subset (hroot.mem_iff.2 ?_) hn
        exact List.mem_append_left _ (List.mem_map_of_mem hc)
      rw [everything_eq, preorder_eq, lost_eq, List.cons_append]
      refine List.Perm.cons root ((hroot.flatMap_right everything).trans ?_)
      rw [List.flatMap_append, List.flatMap_map]
      refine (hbelow.append_right _).trans ?_
      rw [List.append_assoc]
      exact List.perm_append_comm.append_left _

end Node

end StyleSense
