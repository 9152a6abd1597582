/-
# Derived forms

Some forms of expression say what could be said with others: a logical operator
is a conditional that tests its left operand, and a template is a sum of texts.
Each is evaluated by rules of its own, and these agree with what the other form
evaluates to. A conditional has the very evaluation of the operator; a sum has
the value of the template, though not its place.
-/

import StyleSense.Proofs.Evaluate.Likeness

namespace StyleSense

theorem Evaluation.value?_ofOption (span : Span) (value : Option Value) :
    (Evaluation.ofOption span value).value? = value := by
  cases value <;> rfl

/-- Only null and undefined equal null. -/
theorem looselyEqual?_null (v : Value) : looselyEqual? v .null = some v.isNullish := by
  rw [looselyEqual?, Value.isNullish, Bool.or_true, if_pos rfl, Bool.and_true]

/-- What is added to a text is joined to it, if it has a text. -/
theorem addValues?_string (text : String) (v : Value) :
    addValues? (.string text) v = v.toText?.map fun more => .string (text ++ more) := by
  cases v <;> rfl

/-- One step of a template: an expression, and the text behind it. The places
are those of the text, and of the sums with the expression and with the text. -/
structure Addend where
  expression : Node
  cooked : Option String
  raw : String
  place : Span
  inner : Span
  outer : Span

namespace Addend

/-- The text, as an element of a template. -/
def quasi (addend : Addend) : Node :=
  .templatePart addend.place addend.cooked addend.raw

/-- The text, as written where it has no interpretation. -/
def text (addend : Addend) : String :=
  addend.cooked.getD addend.raw

/-- `left + expression + "text"` -/
def join (left : Node) (addend : Addend) : Node :=
  .binary addend.outer "+" (.binary addend.inner "+" left addend.expression)
    (.string addend.place addend.text)

end Addend

namespace Tracker

variable (t : Tracker)

theorem evaluate_and (span place : Span) (a b : Node) :
    t.evaluate (.binary span "&&" a b) = t.evaluate (.conditional place a b (some a)) := by
  have hop : BinaryOperator.ofSymbol? "&&" = some (.logical .and) := rfl
  rw [t.evaluate_binary_of_logical hop, evaluate_conditional]
  cases (t.evaluate a).value? with
  | none => rfl
  | some value =>
      cases htruthy : value.truthy <;> simp [Logical.keepsLeft, htruthy, evaluateOptional]

theorem evaluate_or (span place : Span) (a b : Node) :
    t.evaluate (.binary span "||" a b) = t.evaluate (.conditional place a a (some b)) := by
  have hop : BinaryOperator.ofSymbol? "||" = some (.logical .or) := rfl
  rw [t.evaluate_binary_of_logical hop, evaluate_conditional]
  rfl

/-- Whether a value equals null is known of every value. -/
theorem value?_equalsNull (span place : Span) (a : Node) :
    (t.evaluate (.binary span "==" a (.null place))).value? =
      (t.evaluate a).value?.map fun value => .bool value.isNullish := by
  have hop : BinaryOperator.ofSymbol? "==" = some (.equal false false) := rfl
  rw [t.evaluate_binary_of_strict hop nofun, Evaluation.value?_ofOption]
  cases (t.evaluate a).value? with
  | none => rfl
  | some value =>
      simp only [evaluate, Evaluation.value?, Option.bind_some, Option.map_some,
        BinaryOperator.fold?, looselyEqual?_null, Bool.false_eq_true, if_false, Bool.bne_false]

theorem evaluate_coalesce (span place inner outer point : Span) (a b : Node) :
    t.evaluate (.binary span "??" a b) =
      t.evaluate (.conditional place
        (.wrapped .parenthesis outer (.binary inner "==" a (.null point))) b (some a)) := by
  have hop : BinaryOperator.ofSymbol? "??" = some (.logical .coalesce) := rfl
  have htest : t.evaluate (.wrapped .parenthesis outer (.binary inner "==" a (.null point))) =
      t.evaluate (.binary inner "==" a (.null point)) := rfl
  rw [t.evaluate_binary_of_logical hop, evaluate_conditional, htest, value?_equalsNull]
  cases (t.evaluate a).value? with
  | none => rfl
  | some value =>
      cases hnullish : value.isNullish <;>
        simp [Logical.keepsLeft, Value.truthy, hnullish, evaluateOptional]

theorem value?_plus_eq (span : Span) (left right : Node) :
    (t.evaluate (.binary span "+" left right)).value? =
      (t.evaluate left).value?.bind fun a => (t.evaluate right).value?.bind (addValues? a) := by
  have hop : BinaryOperator.ofSymbol? "+" = some (.arithmetic .add) := rfl
  rw [t.evaluate_binary_of_strict hop nofun, Evaluation.value?_ofOption]
  rfl

/-- A sum with a text has the two texts joined. -/
theorem value?_plus {left : Node} {text : String}
    (h : (t.evaluate left).value? = some (.string text)) (span : Span) (right : Node) :
    (t.evaluate (.binary span "+" left right)).value? =
      (t.evaluate right).text?.map fun more => .string (text ++ more) := by
  rw [value?_plus_eq, h, Option.bind_some, Evaluation.text?, Option.map_bind]
  exact Option.bind_congr fun v _ => addValues?_string text v

theorem value?_plus_of_none {left : Node} (h : (t.evaluate left).value? = none) (span : Span)
    (right : Node) : (t.evaluate (.binary span "+" left right)).value? = none := by
  rw [value?_plus_eq, h, Option.bind_none]

theorem value?_join {left : Node} {text : String}
    (h : (t.evaluate left).value? = some (.string text)) (addend : Addend) :
    (t.evaluate (addend.join left)).value? =
      (t.evaluate addend.expression).text?.map fun part =>
        .string (text ++ part ++ addend.text) := by
  have hinner := t.value?_plus h addend.inner addend.expression
  cases hpart : (t.evaluate addend.expression).text? with
  | none =>
      rw [hpart] at hinner
      exact t.value?_plus_of_none hinner _ _
  | some part =>
      rw [hpart] at hinner
      exact t.value?_plus hinner _ _

theorem value?_join_of_none {left : Node} (h : (t.evaluate left).value? = none)
    (addend : Addend) : (t.evaluate (addend.join left)).value? = none :=
  t.value?_plus_of_none (t.value?_plus_of_none h _ _) _ _

theorem value?_joins_of_none {left : Node} (h : (t.evaluate left).value? = none)
    (addends : List Addend) : (t.evaluate (addends.foldl Addend.join left)).value? = none := by
  induction addends generalizing left with
  | nil => exact h
  | cons addend addends ih => exact ih (t.value?_join_of_none h addend)

/-- A sum that starts with a text goes on as the template that starts with it. -/
theorem value?_joins {left : Node} {before : String} (place : Span) (cooked : Option String)
    (raw : String) (h : (t.evaluate left).value? = some (.string (before ++ cooked.getD raw)))
    (addends : List Addend) :
    (t.evaluate (addends.foldl Addend.join left)).value? =
      (templateText? (.templatePart place cooked raw :: addends.map Addend.quasi)
        (t.evaluateAll (addends.map Addend.expression))).map
          fun rest => .string (before ++ rest) := by
  induction addends generalizing left before place cooked raw with
  | nil => simpa [evaluateAll, templateText?] using h
  | cons addend addends ih =>
      have hjoin := t.value?_join h addend
      simp only [List.map_cons, List.foldl_cons, evaluateAll_cons, templateText?]
      cases hpart : (t.evaluate addend.expression).text? with
      | none =>
          rw [hpart] at hjoin
          exact t.value?_joins_of_none hjoin addends
      | some part =>
          rw [hpart, Option.map_some] at hjoin
          rw [ih addend.place addend.cooked addend.raw hjoin, Option.bind_some, Option.map_map]
          simp only [Addend.quasi, Function.comp_def, String.append_assoc]

/-- A template and the sum that it stands for have the same text as their value,
or neither has a value. -/
theorem value?_template (span place point : Span) (cooked : Option String) (raw : String)
    (addends : List Addend) (types : List Node) :
    ∃ text? : Option String,
      (t.evaluate (.template span (.templatePart point cooked raw :: addends.map Addend.quasi)
        (addends.map Addend.expression) types)).value? = text?.map .string ∧
      (t.evaluate (addends.foldl Addend.join (.string place (cooked.getD raw)))).value? =
        text?.map .string := by
  have hfirst : (t.evaluate (.string place (cooked.getD raw))).value? =
      some (.string ("" ++ cooked.getD raw)) := by
    rw [String.empty_append]
    rfl
  have hsum := t.value?_joins point cooked raw hfirst addends
  simp only [String.empty_append] at hsum
  refine ⟨_, ?_, hsum⟩
  rw [evaluate_template, Evaluation.value?_ofOption]

/-- Derived forms are evaluated as what they are short for: the logical operators
as conditionals, and a template as the sum, from the left, of its texts and
expressions. -/
theorem evaluate_derived (span place inner outer point : Span) (a b : Node)
    (cooked : Option String) (raw : String) (addends : List Addend) (types : List Node) :
    t.evaluate (.binary span "&&" a b) = t.evaluate (.conditional place a b (some a)) ∧
      t.evaluate (.binary span "||" a b) = t.evaluate (.conditional place a a (some b)) ∧
      t.evaluate (.binary span "??" a b) =
        t.evaluate (.conditional place
          (.wrapped .parenthesis outer (.binary inner "==" a (.null point))) b (some a)) ∧
      ∃ text? : Option String,
        (t.evaluate (.template span (.templatePart point cooked raw :: addends.map Addend.quasi)
          (addends.map Addend.expression) types)).value? = text?.map .string ∧
        (t.evaluate (addends.foldl Addend.join (.string place (cooked.getD raw)))).value? =
          text?.map .string :=
  ⟨t.evaluate_and span place a b, t.evaluate_or span place a b,
    t.evaluate_coalesce span place inner outer point a b,
    t.value?_template span place point cooked raw addends types⟩

end Tracker

end StyleSense
