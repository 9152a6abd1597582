/-
# Static values

What an expression is known to be before it runs. An evaluation is a known
value with the place it came from, a name whose value is not known, or nothing
at all. Arrays and objects hold evaluations, so parts of them may be unknown.
-/

import StyleSense.Tree.Span
import StyleSense.Dictionary
import StyleSense.Text.Measure
import StyleSense.Decimal.Notation

namespace StyleSense

mutual
/-- What is known of an expression. -/
inductive Evaluation where
  /-- Nothing is known. -/
  | dynamic
  /-- The value, and where it was written. -/
  | known (value : Value) (span : Span)
  /-- A name or a path below one, whose value is not known. -/
  | reference (path : String) (span : Span)

/-- A script value. Objects keep the order in which keys were added. -/
inductive Value where
  | undefined
  | null
  | bool (value : Bool)
  | number (value : Float)
  | bigint (value : Int)
  | string (value : String)
  | regex (pattern flags : String)
  | array (items : List Evaluation)
  | object (entries : List (String × Evaluation))
end

instance : Inhabited Evaluation := ⟨.dynamic⟩

instance : Inhabited Value := ⟨.undefined⟩

namespace Evaluation

/-- The value, if it is known. -/
def value? : Evaluation → Option Value
  | known value _ => some value
  | _ => none

/-- Whether nothing is known. -/
def isDynamic : Evaluation → Bool
  | dynamic => true
  | _ => false

/-- A value at a place, or nothing. -/
def ofOption (span : Span) : Option Value → Evaluation
  | some value => known value span
  | none => dynamic

end Evaluation

namespace Value

/-- Undefined and null. -/
def isNullish : Value → Bool
  | undefined | null => true
  | _ => false

/-- Values that are copied rather than shared. -/
def isPrimitive : Value → Bool
  | regex .. | array _ | object _ => false
  | _ => true

/-- Whether a condition holds of the value. -/
def truthy : Value → Bool
  | undefined | null => false
  | bool b => b
  | number x => x != 0 && !x.isNaN
  | bigint n => n ≠ 0
  | string s => s ≠ ""
  | regex .. | array _ | object _ => true

/-- The name of the value's type. Null counts as an object. -/
def typeName : Value → String
  | undefined => "undefined"
  | bool _ => "boolean"
  | number _ => "number"
  | bigint _ => "bigint"
  | string _ => "string"
  | null | regex .. | array _ | object _ => "object"

/-- The text of a primitive value. -/
def toText? : Value → Option String
  | undefined => some "undefined"
  | null => some "null"
  | bool b => some (if b then "true" else "false")
  | number x => some (Decimal.formatNumber x)
  | bigint n => some (toString n)
  | string s => some s
  | regex .. | array _ | object _ => none

end Value

end StyleSense
