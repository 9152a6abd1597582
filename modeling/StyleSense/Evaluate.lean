/-
# Evaluation

Folds the part of the script language that has no effects. Whatever cannot be
told before the program runs is dynamic, and nothing is ever run. Names stand
for the constants that the tracker knows; any other name is a reference.
-/

import StyleSense.Scope.Tracker
import StyleSense.Value.Operators

namespace StyleSense

open StyleSense.Text

/-- The number a big integer literal writes: digits of a marked radix with
`_` between them, ending in `n`. A sign may stand before the digits. -/
def bigintOf? (raw : String) : Option Int :=
  let digits := (raw.toList.reverse.dropWhile (· = 'n')).reverse.filter (· ≠ '_')
  match lowerAscii digits with
  | '0' :: 'x' :: rest => signed? 16 rest
  | '0' :: 'o' :: rest => signed? 8 rest
  | '0' :: 'b' :: rest => signed? 2 rest
  | rest => signed? 10 rest
where
  /-- Digits with an optional sign. -/
  signed? (radix : Nat) : List Char → Option Int
    | '-' :: rest => (readDigits? radix rest).map fun n => -(n : Int)
    | '+' :: rest => (readDigits? radix rest).map (↑·)
    | rest => (readDigits? radix rest).map (↑·)

/-- What a name is known to be. -/
def Tracker.evaluateName (t : Tracker) (name : String) (span : Span) : Evaluation :=
  if name = "undefined" then .known .undefined span
  else
    match t.lookup? name with
    | some value => .known value span
    | none => .reference name span

/-- The elements that a spread of a value inlines; an unknown one is one opaque
element. -/
def spreadElements : Evaluation → List Evaluation
  | .known (.array items) _ => items
  | _ => [.dynamic]

/-- The entries that a spread of a value adds. -/
def spreadEntries : Evaluation → Dictionary Evaluation
  | .known (.object entries) _ => entries
  | _ => []

/-- The text of a value, where a key may be a string or a number only. -/
def keyText? : Evaluation → Option String
  | .known (.string s) _ => some s
  | .known (.number x) _ => some (Decimal.formatNumber x)
  | _ => none

/-- The text that a primitive value contributes to a larger text. -/
def Evaluation.text? (e : Evaluation) : Option String :=
  e.value?.bind Value.toText?

/-- The text of a template: each part is followed by the text of the expression
at its place, if there is one. The text as written stands in for text without
an interpretation. -/
def templateText? : List Node → List Evaluation → Option String
  | [], _ => some ""
  | .templatePart _ cooked raw :: quasis, [] =>
      (templateText? quasis []).map (cooked.getD raw ++ ·)
  | .templatePart _ cooked raw :: quasis, expression :: rest =>
      expression.text?.bind fun part =>
        (templateText? quasis rest).map (cooked.getD raw ++ part ++ ·)
  | _ :: _, _ => none

mutual
/-- What an expression is known to be. -/
def Tracker.evaluate (t : Tracker) : Node → Evaluation
  | .string span value => .known (.string value) span
  | .number span value => .known (.number value) span
  | .boolean span value => .known (.bool value) span
  | .null span => .known .null span
  | .bigint span raw => .ofOption span ((raw.bind bigintOf?).map .bigint)
  | .regex span pattern flags => .known (.regex pattern flags) span
  | .identifier span name _ => t.evaluateName name span
  | .array span elements => .known (.array (t.evaluateElements elements)) span
  | .object span properties => .known (.object (t.evaluateProperties [] properties)) span
  | .template span quasis expressions _ =>
      .ofOption span ((templateText? quasis (t.evaluateAll expressions)).map .string)
  | .binary span symbol left right =>
      match BinaryOperator.ofSymbol? symbol with
      | none => .dynamic
      | some (.logical op) =>
          match t.evaluate left with
          | .known value place =>
              if op.keepsLeft value then .known value place else t.evaluate right
          | _ => .dynamic
      | some op =>
          match (t.evaluate left).value?, (t.evaluate right).value? with
          | some a, some b => .ofOption span (op.fold? a b)
          | _, _ => .dynamic
  | .unary span symbol argument =>
      match UnaryOperator.ofSymbol? symbol with
      | none => .dynamic
      | some op => .ofOption span ((t.evaluate argument).value?.bind op.fold?)
  | .conditional _ test consequent alternate =>
      match (t.evaluate test).value? with
      | none => .dynamic
      | some value => if value.truthy then t.evaluate consequent else t.evaluateOptional alternate
  | .member span object property =>
      match t.evaluateKey property with
      | none => .dynamic
      | some key =>
          match t.evaluate object with
          | .reference path _ => .reference (path ++ "." ++ key) span
          | .known value _ => propertyOf value key span
          | .dynamic => .dynamic
  | .call span callee arguments _ =>
      if t.resolveCallee? callee = some .firstThatWorks then
        .known (.array (t.evaluateArguments arguments).reverse) span
      else .dynamic
  | .wrapped _ _ expression => t.evaluate expression
  | .cast _ _ expression _ _ => t.evaluate expression
  | .sequence _ expressions => t.evaluateLast expressions
  | .assignment _ _ right => t.evaluate right
  | .await _ argument => t.evaluateOptional argument
  | _ => .dynamic

/-- What an expression that may be absent is known to be. -/
def Tracker.evaluateOptional (t : Tracker) : Option Node → Evaluation
  | some expression => t.evaluate expression
  | none => .dynamic

/-- The last of a sequence. -/
def Tracker.evaluateLast (t : Tracker) : List Node → Evaluation
  | [] => .dynamic
  | [last] => t.evaluate last
  | _ :: rest => t.evaluateLast rest

/-- Array elements in order. Holes are left out. -/
def Tracker.evaluateElements (t : Tracker) : List (Option (Argument Node)) → List Evaluation
  | [] => []
  | none :: rest => t.evaluateElements rest
  | some ⟨spread, expression⟩ :: rest =>
      (if spread.isSome then spreadElements (t.evaluate expression) else [t.evaluate expression])
        ++ t.evaluateElements rest

/-- Arguments in order. -/
def Tracker.evaluateArguments (t : Tracker) : List (Argument Node) → List Evaluation
  | [] => []
  | ⟨spread, expression⟩ :: rest =>
      (if spread.isSome then spreadElements (t.evaluate expression) else [t.evaluate expression])
        ++ t.evaluateArguments rest

/-- The entries of an object after those of `entries`. Properties whose key
does not fold, and those that are no data, are left out. -/
def Tracker.evaluateProperties (t : Tracker) (entries : Dictionary Evaluation) :
    List Node → Dictionary Evaluation
  | [] => entries
  | property :: rest =>
      let next := match property with
        | .pair .property key value | .pair .assignment key value =>
            match t.propertyKey? key with
            | some name => Dictionary.put name (t.evaluate value) entries
            | none => entries
        | .identifier span name _ => Dictionary.put name (t.evaluateName name span) entries
        | .spread _ argument => Dictionary.putAll (spreadEntries (t.evaluate argument)) entries
        | _ => entries
      t.evaluateProperties next rest

/-- Expressions in order. -/
def Tracker.evaluateAll (t : Tracker) : List Node → List Evaluation
  | [] => []
  | expression :: rest => t.evaluate expression :: t.evaluateAll rest

/-- The key of a member access. -/
def Tracker.evaluateKey (t : Tracker) : Node → Option String
  | .identifier _ name _ => some name
  | .wrapped .computed _ expression => (t.evaluate expression).text?
  | _ => none

/-- The name of an object key, if it folds: a written name, string or number, or
a computed string or number. -/
def Tracker.propertyKey? (t : Tracker) : Node → Option String
  | .identifier _ name _ => some name
  | .string _ value => some value
  | .number _ value => some (Decimal.formatNumber value)
  | .bigint _ raw => (raw.bind bigintOf?).map toString
  | .wrapped .computed _ expression => keyText? (t.evaluate expression)
  | _ => none
end

end StyleSense
