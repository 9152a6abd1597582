/-
# One expression in two settings

An expression is read twice: with the constants of one tracker, and with those
of a like tracker, perhaps after its spans have been replaced. The readings are
alike. There is one lemma for each form of expression, which takes likeness of
the parts to likeness of the whole, and one induction over the tree that puts
them together.

Two things do not follow from likeness of the parts. A spread of an unknown
source adds one opaque element to an array and nothing to an object, and an
entry under an unknown key is left out. What is read off the whole, a length or
the absence of a key, then rests on something unknown. Where the second setting
may know more, the statement asks that it knows no more of these.
-/

import StyleSense.Evaluate
import StyleSense.Proofs.Tree.Respan
import StyleSense.Proofs.Value.Likeness

namespace StyleSense

/-- The source of an argument that is spread. -/
def Argument.source? {α : Type} (argument : Argument α) : Option α :=
  argument.spread.map fun _ => argument.expression

/-- The expressions that decide which entries a node has or adds: sources of
spreads and computed keys. -/
def Node.shapers : Node → List Node
  | .array _ elements => elements.filterMap fun element => element.bind Argument.source?
  | .call _ _ arguments _ => arguments.filterMap Argument.source?
  | .spread _ source => [source]
  | .pair _ (.wrapped .computed _ key) _ => [key]
  | _ => []

theorem Node.mem_shapers_array {span : Span} {elements : List (Option (Argument Node))}
    {argument : Argument Node} {source : Node} (h : some argument ∈ elements)
    (hsource : argument.source? = some source) : source ∈ (Node.array span elements).shapers :=
  List.mem_filterMap.2 ⟨some argument, h, hsource⟩

theorem Node.mem_shapers_call {span : Span} {callee : Node} {arguments : List (Argument Node)}
    {types : Option Node} {argument : Argument Node} {source : Node} (h : argument ∈ arguments)
    (hsource : argument.source? = some source) :
    source ∈ (Node.call span callee arguments types).shapers :=
  List.mem_filterMap.2 ⟨argument, h, hsource⟩

/-- Trackers with the same names of the style API and like constants. -/
structure Tracker.Alike (r : Latitude) (t u : Tracker) : Prop where
  namespaces : u.namespaces = t.namespaces
  members : u.members = t.members
  known : ∀ name v, t.lookup? name = some v → ∃ w, u.lookup? name = some w ∧ Value.Alike r v w
  unknown : ∀ name, t.lookup? name = none → r.loose ∨ u.lookup? name = none

/-- Replacing the spans of a tree moves its nodes as `r` allows. -/
def Node.Placed (r : Latitude) (f : Span → Span) (tree : Node) : Prop :=
  ∀ n ∈ tree.preorder, r.place n.span (n.mapSpans f).span

/-- What is asked of a tree that is read with `t`, and again with `u` after `f`
has replaced its spans. -/
structure Node.Comparable (r : Latitude) (f : Span → Span) (t u : Tracker) (tree : Node) :
    Prop where
  place : tree.Placed r f
  settled : r.loose → ∀ n ∈ tree.preorder, ∀ s ∈ n.shapers,
    (t.evaluate s).value? = none → (u.evaluate (s.mapSpans f)).value? = none

namespace Node

variable {r : Latitude} {f : Span → Span} {t u : Tracker} {n : Node}

theorem Placed.child (h : n.Placed r f) {c : ChildRef × Node} (hc : c ∈ n.children) :
    c.2.Placed r f :=
  fun m hm => h m (mem_preorder_of_child hc hm)

theorem Placed.self (h : n.Placed r f) : r.place n.span (n.mapSpans f).span :=
  h n n.mem_preorder_self

theorem Placed.key {kind : PairKind} {key value : Node}
    (h : (Node.pair kind key value).Placed r f) : key.Placed r f :=
  h.child (key_mem_children kind key value)

theorem Placed.value {kind : PairKind} {key value : Node}
    (h : (Node.pair kind key value).Placed r f) : value.Placed r f :=
  h.child (value_mem_children kind key value)

theorem Placed.argument {span : Span} {callee : Node} {arguments : List (Argument Node)}
    {types : Option Node} {a : Argument Node}
    (h : (Node.call span callee arguments types).Placed r f) (ha : a ∈ arguments) :
    a.expression.Placed r f := by
  obtain ⟨ref, hc⟩ := exists_mem_argumentChildren ha
  exact h.child (List.mem_append_left _ (List.mem_append_right _ hc))

/-- Where nothing new may be known, places are all that is asked. -/
theorem Placed.comparable (h : n.Placed r f) (hstrict : ¬r.loose) : n.Comparable r f t u :=
  ⟨h, fun hloose => absurd hloose hstrict⟩

theorem Comparable.child (h : n.Comparable r f t u) {c : ChildRef × Node}
    (hc : c ∈ n.children) : c.2.Comparable r f t u where
  place := h.place.child hc
  settled hloose m hm := h.settled hloose m (mem_preorder_of_child hc hm)

theorem Comparable.settled_self (h : n.Comparable r f t u) {s : Node} (hs : s ∈ n.shapers)
    (hloose : r.loose) (hunknown : (t.evaluate s).value? = none) :
    (u.evaluate (s.mapSpans f)).value? = none :=
  h.settled hloose n n.mem_preorder_self s hs hunknown

end Node

namespace Evaluation

variable {r : Latitude} {a b : Evaluation}

theorem spreadElements_of_none (h : a.value? = none) : spreadElements a = [.dynamic] := by
  cases a with
  | known => cases h
  | _ => rfl

theorem spreadEntries_of_none (h : a.value? = none) : spreadEntries a = [] := by
  cases a with
  | known => cases h
  | _ => rfl

theorem keyText?_of_none (h : a.value? = none) : keyText? a = none := by
  cases a with
  | known => cases h
  | _ => rfl

/-- Like evaluations of which the second is known only if the first is: both
are unknown, or have like values. -/
theorem Alike.both (h : Alike r a b) (hsettled : r.loose → a.value? = none → b.value? = none) :
    (a.value? = none ∧ b.value? = none) ∨
      ∃ v w s t, a = .known v s ∧ b = .known w t ∧ Value.Alike r v w := by
  cases h with
  | opened hloose ha => exact .inl ⟨ha, hsettled hloose ha⟩
  | dynamic => exact .inl ⟨rfl, rfl⟩
  | reference => exact .inl ⟨rfl, rfl⟩
  | known hvalue => exact .inr ⟨_, _, _, _, rfl, rfl, hvalue⟩

theorem Alike.spreadElements (h : Alike r a b)
    (hsettled : r.loose → a.value? = none → b.value? = none) :
    List.Forall₂ (Alike r) (spreadElements a) (spreadElements b) := by
  rcases h.both hsettled with ⟨ha, hb⟩ | ⟨v, w, s, t, rfl, rfl, hvalue⟩
  · rw [spreadElements_of_none ha, spreadElements_of_none hb]
    exact .cons .dynamic .nil
  · cases hvalue with
    | array hitems => exact hitems
    | object => exact .cons .dynamic .nil
    | simple hsimple =>
        cases v with
        | array => cases hsimple
        | _ => exact .cons .dynamic .nil

theorem Alike.spreadEntries (h : Alike r a b)
    (hsettled : r.loose → a.value? = none → b.value? = none) :
    Dictionary.Related (Alike r) (spreadEntries a) (spreadEntries b) := by
  rcases h.both hsettled with ⟨ha, hb⟩ | ⟨v, w, s, t, rfl, rfl, hvalue⟩
  · rw [spreadEntries_of_none ha, spreadEntries_of_none hb]
    exact .nil
  · cases hvalue with
    | object hentries => exact hentries
    | array => exact .nil
    | simple hsimple =>
        cases v with
        | object => cases hsimple
        | _ => exact .nil

theorem Alike.keyText?_eq (h : Alike r a b)
    (hsettled : r.loose → a.value? = none → b.value? = none) : keyText? b = keyText? a := by
  rcases h.both hsettled with ⟨ha, hb⟩ | ⟨v, w, s, t, rfl, rfl, hvalue⟩
  · rw [keyText?_of_none ha, keyText?_of_none hb]
  · cases hvalue with
    | simple => cases v <;> rfl
    | _ => rfl

theorem Alike.text? (h : Alike r a b) : Kept r.loose a.text? b.text? :=
  h.bind_value? fun _ _ hvalue => .inl hvalue.toText?_eq

end Evaluation

namespace Tracker

section Equations

variable (t : Tracker)

/-- What an argument or element contributes to a list. -/
def argumentItems (argument : Argument Node) : List Evaluation :=
  if argument.spread.isSome then spreadElements (t.evaluate argument.expression)
  else [t.evaluate argument.expression]

theorem evaluateElements_none (elements : List (Option (Argument Node))) :
    t.evaluateElements (none :: elements) = t.evaluateElements elements := rfl

theorem evaluateElements_some (argument : Argument Node)
    (elements : List (Option (Argument Node))) :
    t.evaluateElements (some argument :: elements) =
      t.argumentItems argument ++ t.evaluateElements elements := rfl

theorem evaluateArguments_cons (argument : Argument Node) (rest : List (Argument Node)) :
    t.evaluateArguments (argument :: rest) =
      t.argumentItems argument ++ t.evaluateArguments rest := rfl

/-- Arguments are elements without holes. -/
theorem evaluateArguments_eq (arguments : List (Argument Node)) :
    t.evaluateArguments arguments = t.evaluateElements (arguments.map some) := by
  induction arguments with
  | nil => rfl
  | cons argument rest ih =>
      rw [evaluateArguments_cons, ih, List.map_cons, evaluateElements_some]

theorem evaluateAll_cons (expression : Node) (rest : List Node) :
    t.evaluateAll (expression :: rest) = t.evaluate expression :: t.evaluateAll rest := rfl

theorem evaluateAll_eq (expressions : List Node) :
    t.evaluateAll expressions = expressions.map t.evaluate := by
  induction expressions with
  | nil => rfl
  | cons expression rest ih => rw [evaluateAll_cons, ih, List.map_cons]

theorem evaluateProperties_cons (d : Dictionary Evaluation) (property : Node)
    (rest : List Node) :
    t.evaluateProperties d (property :: rest) =
      t.evaluateProperties (t.evaluateProperties d [property]) rest := by
  cases property with
  | pair kind => cases kind <;> rfl
  | _ => rfl

theorem evaluateProperties_pair (d : Dictionary Evaluation) {kind : PairKind}
    (hkind : kind ≠ .pattern) (key value : Node) :
    t.evaluateProperties d [.pair kind key value] =
      match t.propertyKey? key with
      | some name => Dictionary.put name (t.evaluate value) d
      | none => d := by
  cases kind with
  | pattern => exact absurd rfl hkind
  | _ => rfl

theorem evaluateLast_cons (expression : Node) {rest : List Node} (h : rest ≠ []) :
    t.evaluateLast (expression :: rest) = t.evaluateLast rest := by
  cases rest with
  | nil => exact absurd rfl h
  | cons next rest => rfl

theorem evaluate_unary (span : Span) (symbol : String) (argument : Node) :
    t.evaluate (.unary span symbol argument) =
      match UnaryOperator.ofSymbol? symbol with
      | none => .dynamic
      | some op => .ofOption span ((t.evaluate argument).value?.bind op.fold?) := rfl

theorem evaluate_conditional (span : Span) (test consequent : Node) (alternate : Option Node) :
    t.evaluate (.conditional span test consequent alternate) =
      match (t.evaluate test).value? with
      | none => .dynamic
      | some value =>
          if value.truthy then t.evaluate consequent else t.evaluateOptional alternate := rfl

theorem evaluate_member (span : Span) (object property : Node) :
    t.evaluate (.member span object property) =
      match t.evaluateKey property with
      | none => .dynamic
      | some key =>
          match t.evaluate object with
          | .reference path _ => .reference (path ++ "." ++ key) span
          | .known value _ => propertyOf value key span
          | .dynamic => .dynamic := rfl

theorem evaluate_call (span : Span) (callee : Node) (arguments : List (Argument Node))
    (types : Option Node) :
    t.evaluate (.call span callee arguments types) =
      if t.resolveCallee? callee = some .firstThatWorks then
        .known (.array (t.evaluateArguments arguments).reverse) span
      else .dynamic := rfl

theorem evaluate_template (span : Span) (quasis expressions types : List Node) :
    t.evaluate (.template span quasis expressions types) =
      .ofOption span ((templateText? quasis (t.evaluateAll expressions)).map .string) := rfl

theorem evaluate_binary (span : Span) (symbol : String) (left right : Node) :
    t.evaluate (.binary span symbol left right) =
      match BinaryOperator.ofSymbol? symbol with
      | none => .dynamic
      | some (.logical op) =>
          match t.evaluate left with
          | .known value place =>
              if op.keepsLeft value then .known value place else t.evaluate right
          | _ => .dynamic
      | some op =>
          match (t.evaluate left).value?, (t.evaluate right).value? with
          | some a, some b => .ofOption span (op.fold? a b)
          | _, _ => .dynamic := rfl

/-- A binary operator that looks at both its operands. -/
theorem evaluate_binary_of_strict {symbol : String} {op : BinaryOperator}
    (hop : BinaryOperator.ofSymbol? symbol = some op) (hboth : ∀ l, op ≠ .logical l)
    (span : Span) (left right : Node) :
    t.evaluate (.binary span symbol left right) =
      .ofOption span ((t.evaluate left).value?.bind fun a =>
        (t.evaluate right).value?.bind (op.fold? a)) := by
  rw [evaluate_binary, hop]
  cases op with
  | logical l => exact absurd rfl (hboth l)
  | _ => cases (t.evaluate left).value? <;> cases (t.evaluate right).value? <;> rfl

/-- A logical operator gives one of its operands, if the left one is known. -/
theorem evaluate_binary_of_logical {symbol : String} {op : Logical}
    (hop : BinaryOperator.ofSymbol? symbol = some (.logical op)) (span : Span)
    (left right : Node) :
    t.evaluate (.binary span symbol left right) =
      match (t.evaluate left).value? with
      | none => .dynamic
      | some value => if op.keepsLeft value then t.evaluate left else t.evaluate right := by
  rw [evaluate_binary, hop]
  cases t.evaluate left <;> rfl

/-- The member whose property is taken for a value type. -/
def owner? : Node → Option ApiMember
  | .identifier _ owner _ => t.member? owner
  | .member span object property => t.resolveCallee? (.member span object property)
  | _ => none

theorem resolveValueType?_member (span : Span) (object property : Node) :
    t.resolveValueType? (.member span object property) =
      match property.identifierName? with
      | none => none
      | some name =>
          if t.owner? object = some .types then some (Style.dashify name) else none := by
  cases object <;> rfl

end Equations

namespace Alike

variable {r : Latitude} {f : Span → Span} {t u : Tracker} {s s' : Span}

theorem name (h : Tracker.Alike r t u) (name : String) (hplace : r.place s s') :
    Evaluation.Alike r (t.evaluateName name s) (u.evaluateName name s') := by
  unfold evaluateName
  split
  · exact .known (.simple rfl) hplace
  · cases hlookup : t.lookup? name with
    | some v =>
        obtain ⟨w, hw, hvalue⟩ := h.known name v hlookup
        rw [hw]
        exact .known hvalue hplace
    | none =>
        rcases h.unknown name hlookup with hloose | hnone
        · exact .opened hloose rfl
        · rw [hnone]
          exact .reference hplace

theorem isNamespace_eq (h : Tracker.Alike r t u) (name : String) :
    u.isNamespace name = t.isNamespace name := by
  rw [isNamespace, isNamespace, h.namespaces]

theorem member?_eq (h : Tracker.Alike r t u) (name : String) : u.member? name = t.member? name := by
  rw [member?, member?, h.members]

theorem resolveCallee?_mapSpans (h : Tracker.Alike r t u) (n : Node) :
    u.resolveCallee? (n.mapSpans f) = t.resolveCallee? n := by
  cases n with
  | identifier span name => exact h.member?_eq name
  | member =>
      simp only [Node.mapSpans, resolveCallee?, Node.identifierName?_mapSpans, h.isNamespace_eq]
  | _ => rfl

theorem owner?_mapSpans (h : Tracker.Alike r t u) (n : Node) :
    u.owner? (n.mapSpans f) = t.owner? n := by
  cases n with
  | identifier span name => exact h.member?_eq name
  | member span object property =>
      exact h.resolveCallee?_mapSpans (.member span object property)
  | _ => rfl

theorem resolveValueType?_mapSpans (h : Tracker.Alike r t u) (n : Node) :
    u.resolveValueType? (n.mapSpans f) = t.resolveValueType? n := by
  cases n with
  | member span object property =>
      rw [Node.mapSpans, resolveValueType?_member, resolveValueType?_member,
        Node.identifierName?_mapSpans, h.owner?_mapSpans]
  | _ => rfl

theorem argumentItems {argument : Argument Node}
    (hexpression : Evaluation.Alike r (t.evaluate argument.expression)
      (u.evaluate (argument.expression.mapSpans f)))
    (hsettled : ∀ source, argument.source? = some source → r.loose →
      (t.evaluate source).value? = none → (u.evaluate (source.mapSpans f)).value? = none) :
    List.Forall₂ (Evaluation.Alike r) (t.argumentItems argument)
      (u.argumentItems (Node.mapArgument f argument)) := by
  obtain ⟨dots, expression⟩ := argument
  cases dots with
  | none => exact .cons hexpression .nil
  | some dots => exact hexpression.spreadElements (hsettled expression rfl)

theorem elements {elements : List (Option (Argument Node))}
    (h : ∀ argument, some argument ∈ elements →
      List.Forall₂ (Evaluation.Alike r) (t.argumentItems argument)
        (u.argumentItems (Node.mapArgument f argument))) :
    List.Forall₂ (Evaluation.Alike r) (t.evaluateElements elements)
      (u.evaluateElements (Node.mapSpansElements f elements)) := by
  rw [Node.mapSpansElements_eq_map]
  induction elements with
  | nil => exact .nil
  | cons element rest ih =>
      have hrest := ih fun argument hmem => h argument (List.mem_cons_of_mem _ hmem)
      cases element with
      | none =>
          rw [List.map_cons, Option.map_none, evaluateElements_none, evaluateElements_none]
          exact hrest
      | some argument =>
          rw [List.map_cons, Option.map_some, evaluateElements_some, evaluateElements_some]
          exact List.rel_append (h argument List.mem_cons_self) hrest

theorem all {expressions : List Node}
    (h : ∀ n ∈ expressions, Evaluation.Alike r (t.evaluate n) (u.evaluate (n.mapSpans f))) :
    List.Forall₂ (Evaluation.Alike r) (t.evaluateAll expressions)
      (u.evaluateAll (Node.mapSpansAll f expressions)) := by
  rw [evaluateAll_eq, evaluateAll_eq, Node.mapSpansAll_eq_map, List.map_map]
  exact List.forall₂_map_left_iff.2 (List.forall₂_map_right_iff.2 (List.forall₂_same.2 h))

theorem last {expressions : List Node}
    (h : ∀ n ∈ expressions, Evaluation.Alike r (t.evaluate n) (u.evaluate (n.mapSpans f))) :
    Evaluation.Alike r (t.evaluateLast expressions)
      (u.evaluateLast (Node.mapSpansAll f expressions)) := by
  induction expressions with
  | nil => exact .dynamic
  | cons n rest ih =>
      have hrest := ih fun m hmem => h m (List.mem_cons_of_mem _ hmem)
      cases rest with
      | nil => exact h n List.mem_cons_self
      | cons next rest =>
          rw [Node.mapSpansAll, evaluateLast_cons t n (List.cons_ne_nil _ _),
            evaluateLast_cons u _ (by rw [Node.mapSpansAll]; exact List.cons_ne_nil _ _)]
          exact hrest

theorem optional {expression : Option Node}
    (h : ∀ n, expression = some n →
      Evaluation.Alike r (t.evaluate n) (u.evaluate (n.mapSpans f))) :
    Evaluation.Alike r (t.evaluateOptional expression)
      (u.evaluateOptional (Node.mapSpansOption f expression)) := by
  cases expression with
  | none => exact .dynamic
  | some n => exact h n rfl

theorem properties {properties : List Node}
    (h : ∀ n ∈ properties, ∀ d e, Dictionary.Related (Evaluation.Alike r) d e →
      Dictionary.Related (Evaluation.Alike r) (t.evaluateProperties d [n])
        (u.evaluateProperties e [n.mapSpans f]))
    {d e : Dictionary Evaluation} (hentries : Dictionary.Related (Evaluation.Alike r) d e) :
    Dictionary.Related (Evaluation.Alike r) (t.evaluateProperties d properties)
      (u.evaluateProperties e (Node.mapSpansAll f properties)) := by
  induction properties generalizing d e with
  | nil => exact hentries
  | cons n rest ih =>
      rw [Node.mapSpansAll, evaluateProperties_cons t, evaluateProperties_cons u]
      apply ih
      · intro m hmem
        exact h m (List.mem_cons_of_mem _ hmem)
      · exact h n List.mem_cons_self d e hentries

/-- The text of a template is the same again, or was not known. -/
theorem templateText? {loose : Prop} (quasis : List Node) {xs ys : List Evaluation}
    (h : List.Forall₂ (fun x y => Kept loose (Evaluation.text? x) (Evaluation.text? y)) xs ys) :
    Kept loose (templateText? quasis xs)
      (StyleSense.templateText? (Node.mapSpansAll f quasis) ys) := by
  induction quasis generalizing xs ys with
  | nil => exact .refl _ _
  | cons quasi rest ih =>
      cases quasi with
      | templatePart span cooked raw =>
          cases h with
          | nil => exact (ih .nil).map _
          | cons hpart hrest => exact hpart.bind fun part => (ih hrest).map _
      | _ => exact .refl _ _

variable {left right left' right' : Node}

/-- A logical operator gives one of its operands, or nothing. -/
theorem logical {symbol : String} {op : Logical}
    (hop : BinaryOperator.ofSymbol? symbol = some (.logical op))
    (hleft : Evaluation.Alike r (t.evaluate left) (u.evaluate left'))
    (hright : Evaluation.Alike r (t.evaluate right) (u.evaluate right')) :
    Evaluation.Alike r (t.evaluate (.binary s symbol left right))
      (u.evaluate (.binary s' symbol left' right')) := by
  rw [evaluate_binary, evaluate_binary, hop]
  generalize t.evaluate left = a at hleft ⊢
  generalize u.evaluate left' = b at hleft ⊢
  cases hleft with
  | opened hloose ha =>
      cases a with
      | known => cases ha
      | _ => exact .opened hloose rfl
  | dynamic => exact .dynamic
  | reference => exact .dynamic
  | known hvalue hplace =>
      simp only [hvalue.keepsLeft_eq]
      split
      · exact .known hvalue hplace
      · exact hright

theorem binary (symbol : String)
    (hleft : Evaluation.Alike r (t.evaluate left) (u.evaluate left'))
    (hright : Evaluation.Alike r (t.evaluate right) (u.evaluate right'))
    (hplace : r.place s s') :
    Evaluation.Alike r (t.evaluate (.binary s symbol left right))
      (u.evaluate (.binary s' symbol left' right')) := by
  cases hop : BinaryOperator.ofSymbol? symbol with
  | none =>
      rw [evaluate_binary, evaluate_binary, hop]
      exact .dynamic
  | some op =>
      by_cases hlogical : ∃ l, op = .logical l
      · obtain ⟨l, rfl⟩ := hlogical
        exact logical hop hleft hright
      · have hboth : ∀ l, op ≠ .logical l := fun l hl => hlogical ⟨l, hl⟩
        rw [evaluate_binary_of_strict t hop hboth, evaluate_binary_of_strict u hop hboth]
        apply Evaluation.Alike.ofOption hplace
        · apply hleft.bind_value?
          intro a a' ha
          apply hright.bind_value?
          intro b b' hb
          exact .inl (ha.binary_eq op hb)
        · intro v hv
          obtain ⟨a, -, hv⟩ := Option.bind_eq_some_iff.1 hv
          obtain ⟨b, -, hv⟩ := Option.bind_eq_some_iff.1 hv
          exact isContainer_of_binary hv

theorem unary (symbol : String)
    (hargument : Evaluation.Alike r (t.evaluate left) (u.evaluate left'))
    (hplace : r.place s s') :
    Evaluation.Alike r (t.evaluate (.unary s symbol left))
      (u.evaluate (.unary s' symbol left')) := by
  rw [evaluate_unary, evaluate_unary]
  cases UnaryOperator.ofSymbol? symbol with
  | none => exact .dynamic
  | some op =>
      apply Evaluation.Alike.ofOption hplace
      · exact hargument.bind_value? fun v w hvalue => .inl (hvalue.unary_eq op)
      · intro v hv
        obtain ⟨a, -, hv⟩ := Option.bind_eq_some_iff.1 hv
        exact isContainer_of_unary hv

theorem conditional {test test' : Node} {alternate alternate' : Option Node}
    (htest : Evaluation.Alike r (t.evaluate test) (u.evaluate test'))
    (hleft : Evaluation.Alike r (t.evaluate left) (u.evaluate left'))
    (halternate : Evaluation.Alike r (t.evaluateOptional alternate)
      (u.evaluateOptional alternate')) :
    Evaluation.Alike r (t.evaluate (.conditional s test left alternate))
      (u.evaluate (.conditional s' test' left' alternate')) := by
  rw [evaluate_conditional, evaluate_conditional]
  rcases htest.value?_cases with ⟨ha, hloose | hb⟩ | ⟨v, w, hv, hw, hvalue⟩
  · rw [ha]
    exact .opened hloose rfl
  · rw [ha, hb]
    exact .dynamic
  · simp only [hv, hw, hvalue.truthy_eq]
    split
    · exact hleft
    · exact halternate

theorem key {property : Node}
    (hproperty : Evaluation.Alike r (t.evaluate property) (u.evaluate (property.mapSpans f))) :
    Kept r.loose (t.evaluateKey property) (u.evaluateKey (property.mapSpans f)) := by
  cases property with
  | wrapped wrapper =>
      cases wrapper with
      | computed => exact hproperty.text?
      | _ => exact .refl _ _
  | _ => exact .refl _ _

theorem member {property property' : Node}
    (hkey : Kept r.loose (t.evaluateKey property) (u.evaluateKey property'))
    (hleft : Evaluation.Alike r (t.evaluate left) (u.evaluate left'))
    (hplace : r.place s s') :
    Evaluation.Alike r (t.evaluate (.member s left property))
      (u.evaluate (.member s' left' property')) := by
  rw [evaluate_member, evaluate_member]
  rcases hkey with hkey | ⟨hloose, hkey⟩
  · rw [hkey]
    cases t.evaluateKey property with
    | none => exact .dynamic
    | some key =>
        generalize t.evaluate left = a at hleft ⊢
        generalize u.evaluate left' = b at hleft ⊢
        cases hleft with
        | opened hloose ha =>
            cases a with
            | known => cases ha
            | _ => exact .opened hloose rfl
        | dynamic => exact .dynamic
        | reference => exact .reference hplace
        | known hvalue => exact .propertyOf hvalue key hplace
  · rw [hkey]
    exact .opened hloose rfl

theorem call {callee : Node} {arguments : List (Argument Node)} {types types' : Option Node}
    (h : Tracker.Alike r t u)
    (harguments : ∀ argument ∈ arguments,
      List.Forall₂ (Evaluation.Alike r) (t.argumentItems argument)
        (u.argumentItems (Node.mapArgument f argument)))
    (hplace : r.place s s') :
    Evaluation.Alike r (t.evaluate (.call s callee arguments types))
      (u.evaluate (.call s' (callee.mapSpans f) (Node.mapSpansArguments f arguments) types')) := by
  have hitems : List.Forall₂ (Evaluation.Alike r) (t.evaluateElements (arguments.map some))
      (u.evaluateElements (Node.mapSpansElements f (arguments.map some))) := by
    apply elements
    intro argument hmem
    apply harguments
    simpa using hmem
  have hmapped : Node.mapSpansElements f (arguments.map some) =
      (Node.mapSpansArguments f arguments).map some := by
    rw [Node.mapSpansElements_eq_map, Node.mapSpansArguments_eq_map, List.map_map, List.map_map]
    rfl
  rw [evaluate_call, evaluate_call, h.resolveCallee?_mapSpans]
  split
  · rw [evaluateArguments_eq, evaluateArguments_eq, ← hmapped]
    exact .known (.array (List.forall₂_reverse_iff.2 hitems)) hplace
  · exact .dynamic

theorem template {quasis expressions types types' : List Node}
    (hexpressions : ∀ n ∈ expressions,
      Evaluation.Alike r (t.evaluate n) (u.evaluate (n.mapSpans f)))
    (hplace : r.place s s') :
    Evaluation.Alike r (t.evaluate (.template s quasis expressions types))
      (u.evaluate (.template s' (Node.mapSpansAll f quasis) (Node.mapSpansAll f expressions)
        types')) := by
  rw [evaluate_template, evaluate_template]
  apply Evaluation.Alike.ofOption hplace
  · exact (templateText? quasis ((all hexpressions).imp fun _ _ hpart => hpart.text?)).map _
  · intro v hv
    obtain ⟨text, -, rfl⟩ := Option.map_eq_some_iff.1 hv
    rfl

theorem propertyKey? {key : Node}
    (hkey : Evaluation.Alike r (t.evaluate key) (u.evaluate (key.mapSpans f)))
    (hsettled : ∀ span e, key = .wrapped .computed span e → r.loose →
      (t.evaluate e).value? = none → (u.evaluate (e.mapSpans f)).value? = none) :
    u.propertyKey? (key.mapSpans f) = t.propertyKey? key := by
  cases key with
  | wrapped wrapper span e =>
      cases wrapper with
      | computed => exact hkey.keyText?_eq (hsettled span e rfl)
      | _ => rfl
  | _ => rfl

theorem pair (kind : PairKind) {key key' : Node} {d e : Dictionary Evaluation}
    (hkey : u.propertyKey? key' = t.propertyKey? key)
    (hleft : Evaluation.Alike r (t.evaluate left) (u.evaluate left'))
    (hentries : Dictionary.Related (Evaluation.Alike r) d e) :
    Dictionary.Related (Evaluation.Alike r) (t.evaluateProperties d [.pair kind key left])
      (u.evaluateProperties e [.pair kind key' left']) := by
  by_cases hpattern : kind = .pattern
  · subst hpattern
    exact hentries
  · rw [evaluateProperties_pair t d hpattern, evaluateProperties_pair u e hpattern, hkey]
    cases t.propertyKey? key with
    | none => exact hentries
    | some name => exact hentries.put name hleft

variable {n : Node}

/-- A node is evaluated alike if its children are. -/
theorem of_children (h : Tracker.Alike r t u) (hn : n.Comparable r f t u)
    (heval : ∀ c ∈ n.children, Evaluation.Alike r (t.evaluate c.2) (u.evaluate (c.2.mapSpans f)))
    (hproperties : ∀ c ∈ n.children, ∀ d e, Dictionary.Related (Evaluation.Alike r) d e →
      Dictionary.Related (Evaluation.Alike r) (t.evaluateProperties d [c.2])
        (u.evaluateProperties e [c.2.mapSpans f])) :
    Evaluation.Alike r (t.evaluate n) (u.evaluate (n.mapSpans f)) := by
  have hplace := hn.place.self
  cases n with
  | string => exact .known (.simple rfl) hplace
  | number => exact .known (.simple rfl) hplace
  | boolean => exact .known (.simple rfl) hplace
  | null => exact .known (.simple rfl) hplace
  | regex => exact .known (.simple rfl) hplace
  | bigint span raw =>
      apply Evaluation.Alike.ofOption hplace (.refl _ _)
      intro v hv
      obtain ⟨value, -, rfl⟩ := Option.map_eq_some_iff.1 hv
      rfl
  | identifier span name => exact h.name name hplace
  | array span items =>
      refine .known (.array (elements fun argument hmem => ?_)) hplace
      obtain ⟨ref, hc⟩ := Node.exists_mem_elementChildren hmem
      apply argumentItems (heval (ref, argument.expression) hc)
      intro source hsource
      exact hn.settled_self (Node.mem_shapers_array hmem hsource)
  | object span entries =>
      refine .known (.object (properties (fun m hmem => ?_) .nil)) hplace
      obtain ⟨ref, hc⟩ := Node.exists_mem_listChildren hmem
      exact hproperties (ref, m) hc
  | template span quasis expressions types =>
      apply template (fun m hmem => ?_) hplace
      obtain ⟨ref, hc⟩ := Node.exists_mem_listChildren hmem
      exact heval (ref, m) (List.mem_append_left _ (List.mem_append_right _ hc))
  | binary span symbol left right =>
      exact binary symbol (heval (.whole .left, left) (by simp [Node.children, Node.oneChild]))
        (heval (.whole .right, right) (by simp [Node.children, Node.oneChild])) hplace
  | unary span symbol argument =>
      exact unary symbol (heval (.whole .argument, argument) List.mem_cons_self) hplace
  | conditional span test consequent alternate =>
      refine conditional (heval (.whole .test, test) (by simp [Node.children, Node.oneChild]))
        (heval (.whole .consequent, consequent) (by simp [Node.children, Node.oneChild]))
        (optional fun m hm => ?_)
      subst hm
      exact heval (.whole .alternate, m)
        (by simp [Node.children, Node.oneChild, Node.optionalChild])
  | member span object property =>
      exact member
        (key (heval (.whole .property, property) (by simp [Node.children, Node.oneChild])))
        (heval (.whole .object, object) (by simp [Node.children, Node.oneChild])) hplace
  | call span callee arguments types =>
      apply h.call (fun argument hmem => ?_) hplace
      obtain ⟨ref, hc⟩ := Node.exists_mem_argumentChildren hmem
      apply argumentItems
      · exact heval (ref, argument.expression)
          (List.mem_append_left _ (List.mem_append_right _ hc))
      · intro source hsource
        exact hn.settled_self (Node.mem_shapers_call hmem hsource)
  | wrapped wrapper span expression =>
      exact heval (.whole .expression, expression) List.mem_cons_self
  | cast kind span expression declared types =>
      have hc : (.whole .expression, expression) ∈
          (Node.cast kind span expression declared types).children := by
        cases kind <;> exact List.mem_cons_self
      exact heval (.whole .expression, expression) hc
  | sequence span expressions =>
      apply last
      intro m hmem
      obtain ⟨ref, hc⟩ := Node.exists_mem_listChildren hmem
      exact heval (ref, m) hc
  | assignment span target value =>
      exact heval (.whole .right, value) (by simp [Node.children, Node.oneChild])
  | await span argument =>
      apply optional
      intro m hm
      subst hm
      exact heval (.whole .argument, m) List.mem_cons_self
  | _ => exact .dynamic

/-- A node adds like entries if its children are evaluated alike. -/
theorem properties_of_children (h : Tracker.Alike r t u) (hn : n.Comparable r f t u)
    (heval : ∀ c ∈ n.children, Evaluation.Alike r (t.evaluate c.2) (u.evaluate (c.2.mapSpans f)))
    {d e : Dictionary Evaluation} (hentries : Dictionary.Related (Evaluation.Alike r) d e) :
    Dictionary.Related (Evaluation.Alike r) (t.evaluateProperties d [n])
      (u.evaluateProperties e [n.mapSpans f]) := by
  cases n with
  | identifier span name => exact hentries.put name (h.name name hn.place.self)
  | spread span source =>
      have hsource := (heval (.whole .arguments, source) List.mem_cons_self).spreadEntries
        (hn.settled_self List.mem_cons_self)
      exact Dictionary.Related.putAll hsource hentries
  | pair kind key value =>
      have hkey := heval _ (Node.key_mem_children kind key value)
      have hvalue := heval _ (Node.value_mem_children kind key value)
      refine pair kind (propertyKey? hkey ?_) hvalue hentries
      rintro span e rfl
      exact hn.settled_self List.mem_cons_self
  | _ => exact hentries

/-- Like trackers evaluate a comparable tree alike. -/
theorem evaluate (h : Tracker.Alike r t u) (hn : n.Comparable r f t u) :
    Evaluation.Alike r (t.evaluate n) (u.evaluate (n.mapSpans f)) := by
  -- the entries that a node adds to an object are those of its parts, not of its value
  suffices hboth : ∀ n : Node, n.Comparable r f t u →
      Evaluation.Alike r (t.evaluate n) (u.evaluate (n.mapSpans f)) ∧
        ∀ d e, Dictionary.Related (Evaluation.Alike r) d e →
          Dictionary.Related (Evaluation.Alike r) (t.evaluateProperties d [n])
            (u.evaluateProperties e [n.mapSpans f]) from (hboth n hn).1
  intro n
  induction n using Node.induction with
  | step n ih =>
      intro hn
      have heval := fun c hc => (ih c hc (hn.child hc)).1
      have hproperties := fun c hc => (ih c hc (hn.child hc)).2
      constructor
      · exact of_children h hn heval hproperties
      · intro d e hentries
        exact properties_of_children h hn heval hentries

end Alike

end Tracker

end StyleSense
