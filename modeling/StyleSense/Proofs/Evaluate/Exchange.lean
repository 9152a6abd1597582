/-
# Exchanging parts of an expression

Evaluation is compositional: an expression whose parts are exchanged for others
that read the same reads the same itself. A part is not only evaluated. It may
also stand for an entry of an object, for a key, for a member of the style API
or for a piece of a template, and these readings look at how it is written.
-/

import StyleSense.Proofs.Evaluate.Likeness
import StyleSense.Proofs.Tree.Exchange

namespace StyleSense.Tracker

/-- Two nodes that a tracker reads in the same way wherever one of them may
stand. -/
structure Interchangeable (t : Tracker) (n m : Node) : Prop where
  evaluate : t.evaluate m = t.evaluate n
  entries : ∀ d, t.evaluateProperties d [m] = t.evaluateProperties d [n]
  evaluateKey : t.evaluateKey m = t.evaluateKey n
  propertyKey? : t.propertyKey? m = t.propertyKey? n
  resolveCallee? : t.resolveCallee? m = t.resolveCallee? n
  identifierName? : m.identifierName? = n.identifierName?
  templateText? : ∀ quasis values,
    templateText? (m :: quasis) values = templateText? (n :: quasis) values

namespace Interchangeable

variable {t : Tracker} {n m : Node}

theorem refl (t : Tracker) (n : Node) : t.Interchangeable n n :=
  ⟨rfl, fun _ => rfl, rfl, rfl, rfl, rfl, fun _ _ => rfl⟩

theorem trans {k : Node} (h : t.Interchangeable n m) (h' : t.Interchangeable m k) :
    t.Interchangeable n k where
  evaluate := h'.evaluate.trans h.evaluate
  entries d := (h'.entries d).trans (h.entries d)
  evaluateKey := h'.evaluateKey.trans h.evaluateKey
  propertyKey? := h'.propertyKey?.trans h.propertyKey?
  resolveCallee? := h'.resolveCallee?.trans h.resolveCallee?
  identifierName? := h'.identifierName?.trans h.identifierName?
  templateText? quasis values :=
    (h'.templateText? quasis values).trans (h.templateText? quasis values)

theorem argumentItems {a b : Argument Node} (h : Node.SameArgument t.Interchangeable a b) :
    t.argumentItems b = t.argumentItems a := by
  rw [Tracker.argumentItems, Tracker.argumentItems, h.spread, h.expression.evaluate]

theorem elements {xs ys : List (Option (Argument Node))}
    (h : List.Forall₂ (Option.Rel (Node.SameArgument t.Interchangeable)) xs ys) :
    t.evaluateElements ys = t.evaluateElements xs := by
  induction h with
  | nil => rfl
  | cons helement _ ih =>
      cases helement with
      | none => exact ih
      | some hargument =>
          rw [evaluateElements_some, evaluateElements_some, argumentItems hargument, ih]

theorem arguments {xs ys : List (Argument Node)}
    (h : List.Forall₂ (Node.SameArgument t.Interchangeable) xs ys) :
    t.evaluateArguments ys = t.evaluateArguments xs := by
  induction h with
  | nil => rfl
  | cons hargument _ ih =>
      rw [evaluateArguments_cons, evaluateArguments_cons, argumentItems hargument, ih]

theorem all {xs ys : List Node} (h : List.Forall₂ t.Interchangeable xs ys) :
    t.evaluateAll ys = t.evaluateAll xs := by
  induction h with
  | nil => rfl
  | cons hn _ ih => rw [evaluateAll_cons, evaluateAll_cons, hn.evaluate, ih]

theorem last {xs ys : List Node} (h : List.Forall₂ t.Interchangeable xs ys) :
    t.evaluateLast ys = t.evaluateLast xs := by
  induction h with
  | nil => rfl
  | cons hn hrest ih =>
      cases hrest with
      | nil => exact hn.evaluate
      | cons => exact ih

theorem properties {xs ys : List Node} (h : List.Forall₂ t.Interchangeable xs ys)
    (d : Dictionary Evaluation) : t.evaluateProperties d ys = t.evaluateProperties d xs := by
  induction h generalizing d with
  | nil => rfl
  | @cons n m xs ys hn _ ih =>
      rw [evaluateProperties_cons t d n, evaluateProperties_cons t d m, hn.entries, ih]

theorem template {xs ys : List Node} (h : List.Forall₂ t.Interchangeable xs ys)
    (values : List Evaluation) :
    StyleSense.templateText? ys values = StyleSense.templateText? xs values := by
  induction h generalizing values with
  | nil => rfl
  | @cons n m xs ys hn _ ih =>
      rw [hn.templateText?]
      cases n with
      | templatePart span cooked raw =>
          cases values with
          | nil => rw [StyleSense.templateText?, StyleSense.templateText?, ih]
          | cons value values => simp only [StyleSense.templateText?, ih]
      | _ => rfl

variable {f : ChildRef → Node → Node} {field : Field}

theorem one {child : Node}
    (h : ∀ c ∈ Node.oneChild field child, t.Interchangeable c.2 (f c.1 c.2)) :
    t.Interchangeable child (f (.whole field) child) :=
  h (.whole field, child) List.mem_cons_self

theorem optional {child : Option Node}
    (h : ∀ c ∈ Node.optionalChild field child, t.Interchangeable c.2 (f c.1 c.2)) :
    t.evaluateOptional (Node.exchangeOptional f field child) = t.evaluateOptional child := by
  cases child with
  | none => rfl
  | some n => exact (h (.whole field, n) List.mem_cons_self).evaluate

/-- A node whose children are exchanged has the same evaluation. -/
theorem evaluate_exchange (h : ∀ c ∈ n.children, t.Interchangeable c.2 (f c.1 c.2)) :
    t.evaluate (n.exchange f) = t.evaluate n := by
  cases n with
  | array span items =>
      exact congrArg (fun items => Evaluation.known (.array items) span)
        (elements (Node.forall₂_exchangeElements h))
  | object span items =>
      exact congrArg (fun entries => Evaluation.known (.object entries) span)
        (properties (Node.forall₂_exchangeList h) [])
  | template span quasis expressions types =>
      obtain ⟨h, _⟩ := List.forall_mem_append.1 h
      obtain ⟨hquasis, hexpressions⟩ := List.forall_mem_append.1 h
      rw [Node.exchange, evaluate_template, evaluate_template,
        template (Node.forall₂_exchangeList hquasis), all (Node.forall₂_exchangeList hexpressions)]
  | binary span symbol left right =>
      obtain ⟨hleft, hright⟩ := List.forall_mem_append.1 h
      rw [Node.exchange, evaluate_binary, evaluate_binary, (one hleft).evaluate,
        (one hright).evaluate]
  | unary span symbol argument =>
      rw [Node.exchange, evaluate_unary, evaluate_unary, (one h).evaluate]
  | conditional span test consequent alternate =>
      obtain ⟨h, halternate⟩ := List.forall_mem_append.1 h
      obtain ⟨htest, hconsequent⟩ := List.forall_mem_append.1 h
      rw [Node.exchange, evaluate_conditional, evaluate_conditional, (one htest).evaluate,
        (one hconsequent).evaluate, optional halternate]
  | member span object property =>
      obtain ⟨hobject, hproperty⟩ := List.forall_mem_append.1 h
      rw [Node.exchange, evaluate_member, evaluate_member, (one hobject).evaluate,
        (one hproperty).evaluateKey]
  | call span callee items types =>
      obtain ⟨h, _⟩ := List.forall_mem_append.1 h
      obtain ⟨hcallee, hitems⟩ := List.forall_mem_append.1 h
      rw [Node.exchange, evaluate_call, evaluate_call, (one hcallee).resolveCallee?,
        arguments (Node.forall₂_exchangeArguments hitems)]
  | wrapped wrapper span expression => exact (one h).evaluate
  | cast kind span expression declared types =>
      cases kind <;> exact (h (.whole .expression, expression) List.mem_cons_self).evaluate
  | sequence span expressions => exact last (Node.forall₂_exchangeList h)
  | assignment span left right =>
      obtain ⟨_, hright⟩ := List.forall_mem_append.1 h
      exact (one hright).evaluate
  | await span argument => exact optional h
  | _ => rfl

theorem evaluateKey_exchange (h : ∀ c ∈ n.children, t.Interchangeable c.2 (f c.1 c.2)) :
    t.evaluateKey (n.exchange f) = t.evaluateKey n := by
  cases n with
  | wrapped wrapper span expression =>
      cases wrapper with
      | computed => exact congrArg Evaluation.text? (one h).evaluate
      | _ => rfl
  | cast kind => cases kind <;> rfl
  | _ => rfl

theorem propertyKey?_exchange (h : ∀ c ∈ n.children, t.Interchangeable c.2 (f c.1 c.2)) :
    t.propertyKey? (n.exchange f) = t.propertyKey? n := by
  cases n with
  | wrapped wrapper span expression =>
      cases wrapper with
      | computed => exact congrArg keyText? (one h).evaluate
      | _ => rfl
  | cast kind => cases kind <;> rfl
  | _ => rfl

theorem entries_exchange (h : ∀ c ∈ n.children, t.Interchangeable c.2 (f c.1 c.2))
    (d : Dictionary Evaluation) :
    t.evaluateProperties d [n.exchange f] = t.evaluateProperties d [n] := by
  cases n with
  | spread span source =>
      exact congrArg (fun e => Dictionary.putAll (spreadEntries e) d) (one h).evaluate
  | pair kind key value =>
      obtain ⟨hkey, hvalue⟩ := List.forall_mem_append.1 h
      by_cases hpattern : kind = .pattern
      · subst hpattern
        rfl
      · rw [Node.exchange, evaluateProperties_pair t d hpattern,
          evaluateProperties_pair t d hpattern, (one hkey).propertyKey?, (one hvalue).evaluate]
  | cast kind => cases kind <;> rfl
  | _ => rfl

theorem resolveCallee?_exchange (h : ∀ c ∈ n.children, t.Interchangeable c.2 (f c.1 c.2)) :
    t.resolveCallee? (n.exchange f) = t.resolveCallee? n := by
  cases n with
  | member span object property =>
      obtain ⟨hobject, hproperty⟩ := List.forall_mem_append.1 h
      simp only [Node.exchange, Tracker.resolveCallee?, (one hobject).identifierName?,
        (one hproperty).identifierName?]
  | cast kind => cases kind <;> rfl
  | _ => rfl

/-- A node whose children are exchanged for others that read the same reads the
same. -/
theorem exchange (h : ∀ c ∈ n.children, t.Interchangeable c.2 (f c.1 c.2)) :
    t.Interchangeable n (n.exchange f) where
  evaluate := evaluate_exchange h
  entries := entries_exchange h
  evaluateKey := evaluateKey_exchange h
  propertyKey? := propertyKey?_exchange h
  resolveCallee? := resolveCallee?_exchange h
  identifierName? := by
    cases n with
    | cast kind => cases kind <;> rfl
    | _ => rfl
  templateText? quasis values := by
    cases n with
    | cast kind => cases kind <;> rfl
    | _ => rfl

end Interchangeable

end StyleSense.Tracker
