/-
# The names that an evaluation depends on

What an expression is known to be depends on the names that occur in it, and on
nothing else that a tracker knows: not on the number of its frames, not on other
names, and not on its modules.
-/

import StyleSense.Proofs.Evaluate.Likeness

namespace StyleSense

/-- The names that occur in a tree. -/
def Node.names (n : Node) : List String :=
  n.preorder.filterMap Node.identifierName?

namespace Node

variable {n : Node} {name : String}

theorem mem_names : name ∈ n.names ↔ ∃ m ∈ n.preorder, m.identifierName? = some name :=
  List.mem_filterMap

theorem mem_names_identifier {span : Span} {declared : Option Node} :
    name ∈ (Node.identifier span name declared).names :=
  mem_names.2 ⟨_, mem_preorder_self _, rfl⟩

theorem mem_names_of_child {c : ChildRef × Node} (hc : c ∈ n.children)
    (h : name ∈ c.2.names) : name ∈ n.names := by
  have ⟨m, hm, hname⟩ := mem_names.1 h
  exact mem_names.2 ⟨m, mem_preorder_of_child hc hm, hname⟩

end Node

namespace Tracker

/-- Trackers that give the same answers about each of the names. -/
structure AgreeOn (names : List String) (t u : Tracker) : Prop where
  lookup? : ∀ name ∈ names, u.lookup? name = t.lookup? name
  member? : ∀ name ∈ names, u.member? name = t.member? name
  isNamespace : ∀ name ∈ names, u.isNamespace name = t.isNamespace name

namespace AgreeOn

variable {t u : Tracker} {n : Node}

theorem child (h : AgreeOn n.names t u) {c : ChildRef × Node} (hc : c ∈ n.children) :
    AgreeOn c.2.names t u where
  lookup? name hname := h.lookup? name (Node.mem_names_of_child hc hname)
  member? name hname := h.member? name (Node.mem_names_of_child hc hname)
  isNamespace name hname := h.isNamespace name (Node.mem_names_of_child hc hname)

theorem evaluateName {names : List String} (h : AgreeOn names t u) {name : String}
    (hname : name ∈ names) (span : Span) :
    u.evaluateName name span = t.evaluateName name span := by
  rw [Tracker.evaluateName, Tracker.evaluateName, h.lookup? name hname]

theorem resolveCallee? (h : AgreeOn n.names t u) : u.resolveCallee? n = t.resolveCallee? n := by
  cases n with
  | identifier span name => exact h.member? name Node.mem_names_identifier
  | member span object property =>
      have hobject := h.child (c := (.whole .object, object)) List.mem_cons_self
      cases object with
      | identifier span name =>
          simp only [Tracker.resolveCallee?, Node.identifierName?,
            hobject.isNamespace name Node.mem_names_identifier]
      | _ => rfl
  | _ => rfl

theorem resolveValueType? (h : AgreeOn n.names t u) :
    u.resolveValueType? n = t.resolveValueType? n := by
  cases n with
  | member span object property =>
      have hobject := h.child (c := (.whole .object, object)) List.mem_cons_self
      have howner : u.owner? object = t.owner? object := by
        cases object with
        | identifier span name => exact hobject.member? name Node.mem_names_identifier
        | member => exact hobject.resolveCallee?
        | _ => rfl
      rw [resolveValueType?_member, resolveValueType?_member, howner]
  | _ => rfl

end AgreeOn

section

variable {t u : Tracker}

theorem argumentItems_congr {argument : Argument Node}
    (h : u.evaluate argument.expression = t.evaluate argument.expression) :
    u.argumentItems argument = t.argumentItems argument := by
  rw [argumentItems, argumentItems, h]

theorem evaluateElements_congr {elements : List (Option (Argument Node))}
    (h : ∀ argument, some argument ∈ elements →
      u.evaluate argument.expression = t.evaluate argument.expression) :
    u.evaluateElements elements = t.evaluateElements elements := by
  induction elements with
  | nil => rfl
  | cons element rest ih =>
      have hrest := ih fun argument hmem => h argument (List.mem_cons_of_mem _ hmem)
      cases element with
      | none => exact hrest
      | some argument =>
          rw [evaluateElements_some, evaluateElements_some, hrest,
            argumentItems_congr (h argument List.mem_cons_self)]

theorem evaluateLast_congr {expressions : List Node}
    (h : ∀ n ∈ expressions, u.evaluate n = t.evaluate n) :
    u.evaluateLast expressions = t.evaluateLast expressions := by
  induction expressions with
  | nil => rfl
  | cons n rest ih =>
      cases rest with
      | nil => exact h n List.mem_cons_self
      | cons next rest => exact ih fun m hmem => h m (List.mem_cons_of_mem _ hmem)

theorem evaluateProperties_congr {properties : List Node}
    (h : ∀ n ∈ properties, ∀ d, u.evaluateProperties d [n] = t.evaluateProperties d [n])
    (d : Dictionary Evaluation) :
    u.evaluateProperties d properties = t.evaluateProperties d properties := by
  induction properties generalizing d with
  | nil => rfl
  | cons n rest ih =>
      rw [evaluateProperties_cons u, evaluateProperties_cons t, h n List.mem_cons_self]
      exact ih (fun m hmem => h m (List.mem_cons_of_mem _ hmem)) _

theorem evaluateKey_congr {property : Node} (h : u.evaluate property = t.evaluate property) :
    u.evaluateKey property = t.evaluateKey property := by
  cases property with
  | wrapped wrapper =>
      cases wrapper with
      | computed => exact congrArg Evaluation.text? h
      | _ => rfl
  | _ => rfl

theorem propertyKey?_congr {key : Node} (h : u.evaluate key = t.evaluate key) :
    u.propertyKey? key = t.propertyKey? key := by
  cases key with
  | wrapped wrapper =>
      cases wrapper with
      | computed => exact congrArg keyText? h
      | _ => rfl
  | _ => rfl

end

namespace AgreeOn

variable {t u : Tracker} {n : Node}

/-- A node has the same evaluation in both if its parts have. -/
theorem evaluate_of_children (h : AgreeOn n.names t u)
    (heval : ∀ c ∈ n.children, u.evaluate c.2 = t.evaluate c.2)
    (hproperties : ∀ c ∈ n.children, ∀ d,
      u.evaluateProperties d [c.2] = t.evaluateProperties d [c.2]) :
    u.evaluate n = t.evaluate n := by
  cases n with
  | identifier span name => exact h.evaluateName Node.mem_names_identifier span
  | array span elements =>
      apply congrArg fun items => Evaluation.known (.array items) span
      apply evaluateElements_congr
      intro argument hmem
      obtain ⟨ref, hc⟩ := Node.exists_mem_elementChildren hmem
      exact heval (ref, argument.expression) hc
  | object span properties =>
      apply congrArg fun entries => Evaluation.known (.object entries) span
      apply evaluateProperties_congr
      intro m hmem
      obtain ⟨ref, hc⟩ := Node.exists_mem_listChildren hmem
      exact hproperties (ref, m) hc
  | template span quasis expressions types =>
      have hexpressions : u.evaluateAll expressions = t.evaluateAll expressions := by
        rw [evaluateAll_eq, evaluateAll_eq]
        apply List.map_congr_left
        intro m hmem
        obtain ⟨ref, hc⟩ := Node.exists_mem_listChildren hmem
        exact heval (ref, m) (List.mem_append_left _ (List.mem_append_right _ hc))
      rw [evaluate_template, evaluate_template, hexpressions]
  | binary span symbol left right =>
      have hleft := heval (.whole .left, left) (by simp [Node.children, Node.oneChild])
      have hright := heval (.whole .right, right) (by simp [Node.children, Node.oneChild])
      rw [evaluate_binary, evaluate_binary, hleft, hright]
  | unary span symbol argument =>
      rw [evaluate_unary, evaluate_unary, heval (.whole .argument, argument) List.mem_cons_self]
  | conditional span test consequent alternate =>
      have htest := heval (.whole .test, test) (by simp [Node.children, Node.oneChild])
      have hconsequent := heval (.whole .consequent, consequent)
        (by simp [Node.children, Node.oneChild])
      have halternate : u.evaluateOptional alternate = t.evaluateOptional alternate := by
        cases alternate with
        | none => rfl
        | some m =>
            exact heval (.whole .alternate, m)
              (by simp [Node.children, Node.oneChild, Node.optionalChild])
      rw [evaluate_conditional, evaluate_conditional, htest, hconsequent, halternate]
  | member span object property =>
      have hobject := heval (.whole .object, object) (by simp [Node.children, Node.oneChild])
      have hproperty := heval (.whole .property, property)
        (by simp [Node.children, Node.oneChild])
      rw [evaluate_member, evaluate_member, hobject, evaluateKey_congr hproperty]
  | call span callee arguments types =>
      have hcallee := h.child (c := (.whole .callee, callee))
        (by simp [Node.children, Node.oneChild])
      have harguments : u.evaluateArguments arguments = t.evaluateArguments arguments := by
        rw [evaluateArguments_eq, evaluateArguments_eq]
        apply evaluateElements_congr
        intro argument hmem
        obtain ⟨ref, hc⟩ := Node.exists_mem_argumentChildren (by simpa using hmem)
        exact heval (ref, argument.expression)
          (List.mem_append_left _ (List.mem_append_right _ hc))
      rw [evaluate_call, evaluate_call, hcallee.resolveCallee?, harguments]
  | wrapped wrapper span expression =>
      exact heval (.whole .expression, expression) List.mem_cons_self
  | cast kind span expression declared types =>
      apply heval (.whole .expression, expression)
      cases kind <;> exact List.mem_cons_self
  | sequence span expressions =>
      apply evaluateLast_congr
      intro m hmem
      obtain ⟨ref, hc⟩ := Node.exists_mem_listChildren hmem
      exact heval (ref, m) hc
  | assignment span target value =>
      exact heval (.whole .right, value) (by simp [Node.children, Node.oneChild])
  | await span argument =>
      cases argument with
      | none => rfl
      | some m => exact heval (.whole .argument, m) List.mem_cons_self
  | _ => rfl

/-- A node adds the same entries in both if its parts have the same evaluation. -/
theorem properties_of_children (h : AgreeOn n.names t u)
    (heval : ∀ c ∈ n.children, u.evaluate c.2 = t.evaluate c.2) (d : Dictionary Evaluation) :
    u.evaluateProperties d [n] = t.evaluateProperties d [n] := by
  cases n with
  | identifier span name =>
      apply congrArg fun e => Dictionary.put name e d
      exact h.evaluateName Node.mem_names_identifier span
  | spread span source =>
      apply congrArg fun e => Dictionary.putAll (spreadEntries e) d
      exact heval (.whole .arguments, source) List.mem_cons_self
  | pair kind key value =>
      by_cases hpattern : kind = .pattern
      · subst hpattern
        rfl
      · rw [evaluateProperties_pair u d hpattern, evaluateProperties_pair t d hpattern,
          propertyKey?_congr (heval _ (Node.key_mem_children kind key value)),
          heval _ (Node.value_mem_children kind key value)]
  | _ => rfl

theorem evaluate (h : AgreeOn n.names t u) : u.evaluate n = t.evaluate n := by
  -- an entry of an object has no evaluation of its own, so both are carried along
  suffices hboth : ∀ n : Node, AgreeOn n.names t u →
      u.evaluate n = t.evaluate n ∧
        ∀ d, u.evaluateProperties d [n] = t.evaluateProperties d [n] from (hboth n h).1
  intro n
  induction n using Node.induction with
  | step n ih =>
      intro h
      have heval := fun c hc => (ih c hc (h.child hc)).1
      have hproperties := fun c hc => (ih c hc (h.child hc)).2
      exact ⟨h.evaluate_of_children heval hproperties, h.properties_of_children heval⟩

/-- Trackers that agree on the names in an expression read it in the same way:
as a value, as a key, as a member of the style API and as a value type. -/
theorem readings_eq (h : AgreeOn n.names t u) :
    u.evaluate n = t.evaluate n ∧ u.propertyKey? n = t.propertyKey? n ∧
      u.resolveCallee? n = t.resolveCallee? n ∧ u.resolveValueType? n = t.resolveValueType? n :=
  ⟨h.evaluate, propertyKey?_congr h.evaluate, h.resolveCallee?, h.resolveValueType?⟩

/-- `stylex.firstThatWorks(c, "red")` -/
def firstThatWorks : Node :=
  let api : Node := .identifier ⟨1, 7⟩ "stylex" none
  .call ⟨1, 32⟩ (.member ⟨1, 22⟩ api (.identifier ⟨8, 22⟩ "firstThatWorks" none))
    [⟨none, .identifier ⟨23, 24⟩ "c" none⟩, ⟨none, .string ⟨26, 31⟩ "red"⟩] none

/-- A file that binds `c` at the top. -/
def flat : Tracker :=
  { new with frames := [[("c", .string "#fff")]] }

/-- A file with the same `c` two frames up, other constants, other names of the
style API, and another list of modules. -/
def nested : Tracker :=
  ⟨[[("d", .null)], [], [("c", .string "#fff"), ("e", .undefined)]], ["css", "stylex"],
    [("create", .create)], ["css"]⟩

theorem agreeOn_flat_nested : AgreeOn firstThatWorks.names flat nested := by
  have hnames : firstThatWorks.names = ["stylex", "firstThatWorks", "c"] := by decide +kernel
  rw [hnames]
  constructor <;> simp only [List.forall_mem_cons] <;> exact ⟨rfl, rfl, rfl, nofun⟩

/-- Neither the number of frames nor what else is known matters. -/
theorem readings_eq_firstThatWorks :
    AgreeOn firstThatWorks.names flat nested ∧
      nested.evaluate firstThatWorks = flat.evaluate firstThatWorks ∧
      flat.evaluate firstThatWorks =
        .known (.array [.known (.string "red") ⟨26, 31⟩, .known (.string "#fff") ⟨23, 24⟩])
          ⟨1, 32⟩ :=
  ⟨agreeOn_flat_nested, agreeOn_flat_nested.readings_eq.1, rfl⟩

end AgreeOn

end Tracker

end StyleSense
