/-
# Operators on values

Each operator either folds two known operands or gives no answer. Composite
values have no identity before the program runs, so comparing them gives none;
big integers mix with no other numbers.
-/

import StyleSense.Value.Number

namespace StyleSense

open StyleSense.Text StyleSense.Decimal

/-- Arithmetic on two numbers or two big integers. -/
inductive Arithmetic
  | add | subtract | multiply | divide | remainder | power
  deriving DecidableEq, Repr

/-- Order comparisons. -/
inductive Comparison
  | less | lessOrEqual | greater | greaterOrEqual
  deriving DecidableEq, Repr

/-- Operations on 32-bit integers. -/
inductive Bitwise
  | or | and | xor | shiftLeft | shiftRight | shiftRightUnsigned
  deriving DecidableEq, Repr

/-- Operators that may leave their right operand aside. -/
inductive Logical
  | and | or | coalesce
  deriving DecidableEq, Repr

/-- Binary operators that fold. -/
inductive BinaryOperator
  | logical (op : Logical)
  | arithmetic (op : Arithmetic)
  | compare (op : Comparison)
  | bitwise (op : Bitwise)
  | equal (strict negated : Bool)
  | has
  deriving DecidableEq, Repr

/-- The operator of this spelling. -/
def BinaryOperator.ofSymbol? : String → Option BinaryOperator
  | "&&" => some (.logical .and)
  | "||" => some (.logical .or)
  | "??" => some (.logical .coalesce)
  | "+" => some (.arithmetic .add)
  | "-" => some (.arithmetic .subtract)
  | "*" => some (.arithmetic .multiply)
  | "/" => some (.arithmetic .divide)
  | "%" => some (.arithmetic .remainder)
  | "**" => some (.arithmetic .power)
  | "<" => some (.compare .less)
  | "<=" => some (.compare .lessOrEqual)
  | ">" => some (.compare .greater)
  | ">=" => some (.compare .greaterOrEqual)
  | "===" => some (.equal true false)
  | "!==" => some (.equal true true)
  | "==" => some (.equal false false)
  | "!=" => some (.equal false true)
  | "|" => some (.bitwise .or)
  | "&" => some (.bitwise .and)
  | "^" => some (.bitwise .xor)
  | "<<" => some (.bitwise .shiftLeft)
  | ">>" => some (.bitwise .shiftRight)
  | ">>>" => some (.bitwise .shiftRightUnsigned)
  | "in" => some .has
  | _ => none

/-- Whether the left operand of a logical operator is its answer. -/
def Logical.keepsLeft (op : Logical) (left : Value) : Bool :=
  match op with
  | .and => !left.truthy
  | .or => left.truthy
  | .coalesce => !left.isNullish

/-- The largest exponent to which big integers are raised. -/
def maxExponent : Int := 4096

/-- Arithmetic on big integers. Division truncates and needs a divisor. -/
def Arithmetic.onIntegers? (op : Arithmetic) (a b : Int) : Option Int :=
  match op with
  | .add => some (a + b)
  | .subtract => some (a - b)
  | .multiply => some (a * b)
  | .divide => if b = 0 then none else some (a.tdiv b)
  | .remainder => if b = 0 then none else some (a.tmod b)
  | .power => if 0 ≤ b && b ≤ maxExponent then some (Int.pow a b.toNat) else none

/-- Arithmetic on numbers. -/
def Arithmetic.onNumbers (op : Arithmetic) (a b : Float) : Float :=
  match op with
  | .add => a + b
  | .subtract => a - b
  | .multiply => a * b
  | .divide => a / b
  | .remainder => Decimal.remainder a b
  | .power => a.pow b

/-- Arithmetic on values. -/
def Arithmetic.fold? (op : Arithmetic) (left right : Value) : Option Value :=
  match left, right with
  | .bigint a, .bigint b => (op.onIntegers? a b).map .bigint
  | .bigint _, _ | _, .bigint _ => none
  | _, _ => do
      let a ← left.toNumber?
      let b ← right.toNumber?
      pure (.number (op.onNumbers a b))

/-- Whether the value is a string. -/
def Value.isString : Value → Bool
  | .string _ => true
  | _ => false

/-- Addition of primitive values: texts are joined when either is one. -/
def addValues? (left right : Value) : Option Value :=
  if !left.isPrimitive || !right.isPrimitive then none
  else if left.isString || right.isString then do
    let a ← left.toText?
    let b ← right.toText?
    pure (.string (a ++ b))
  else Arithmetic.add.fold? left right

/-- Whether an order satisfies a comparison. -/
def Comparison.holds (op : Comparison) (order : Ordering) : Bool :=
  match op with
  | .less => order = .lt
  | .lessOrEqual => order ≠ .gt
  | .greater => order = .gt
  | .greaterOrEqual => order ≠ .lt

/-- The order of two numbers, if they have one. -/
def orderOfNumbers? (a b : Float) : Option Ordering :=
  if a < b then some .lt
  else if b < a then some .gt
  else if a == b then some .eq
  else none

/-- A comparison of values. Texts compare by their UTF-16 forms; what is no
number compares false. -/
def Comparison.fold? (op : Comparison) (left right : Value) : Option Bool :=
  match left, right with
  | .string a, .string b => some (op.holds (compareUnits a.toList b.toList))
  | .bigint a, .bigint b => some (op.holds (compare a b))
  | .bigint _, _ | _, .bigint _ => none
  | _, _ => do
      let a ← left.toNumber?
      let b ← right.toNumber?
      pure ((orderOfNumbers? a b).any op.holds)

/-- Equality without conversion. -/
def strictlyEqual? (left right : Value) : Option Bool :=
  match left, right with
  | .undefined, .undefined | .null, .null => some true
  | .bool a, .bool b => some (a == b)
  | .number a, .number b => some (a == b)
  | .bigint a, .bigint b => some (a == b)
  | .string a, .string b => some (a == b)
  | _, _ => if left.isPrimitive && right.isPrimitive then some false else none

/-- Whether two values are of one sort. -/
def sameSort : Value → Value → Bool
  | .undefined, .undefined | .null, .null | .bool _, .bool _ | .number _, .number _
  | .bigint _, .bigint _ | .string _, .string _ | .regex .., .regex ..
  | .array _, .array _ | .object _, .object _ => true
  | _, _ => false

/-- Equality with conversion: undefined and null equal each other and nothing
else; unlike primitives are compared as numbers. -/
def looselyEqual? (left right : Value) : Option Bool :=
  if left.isNullish || right.isNullish then some (left.isNullish && right.isNullish)
  else if sameSort left right then strictlyEqual? left right
  else if left.isPrimitive && right.isPrimitive then do
    let a ← left.toNumber?
    let b ← right.toNumber?
    pure (a == b)
  else none

/-- An operation on the thirty-two bits of two numbers. Shifts use the lowest
five bits of the right one. -/
def Bitwise.onNumbers (op : Bitwise) (a b : Float) : Float :=
  let shift := toUnsigned32 b &&& 31
  match op with
  | .or => ofSigned32 (toSigned32 a ||| toSigned32 b)
  | .and => ofSigned32 (toSigned32 a &&& toSigned32 b)
  | .xor => ofSigned32 (toSigned32 a ^^^ toSigned32 b)
  | .shiftLeft => ofSigned32 (toSigned32 a <<< shift.toInt32)
  | .shiftRight => ofSigned32 (toSigned32 a >>> shift.toInt32)
  | .shiftRightUnsigned => ofUnsigned32 (toUnsigned32 a >>> shift)

/-- An operation on the thirty-two bits of two values. -/
def Bitwise.fold? (op : Bitwise) (left right : Value) : Option Value := do
  let a ← left.toNumber?
  let b ← right.toNumber?
  pure (.number (op.onNumbers a b))

/-- An index as its text gives it: digits with an optional plus sign, within 64
bits. -/
def indexOf? (key : String) : Option Nat :=
  readBounded? 10 (Nat.pow 2 64) key.toList

/-- Whether an object or array has a key. -/
def hasKey? (key target : Value) : Option Bool :=
  key.toText?.bind fun name =>
    match target with
    | .object entries => some (Dictionary.has name entries)
    | .array items => some (name = "length" || (indexOf? name).any (· < items.length))
    | _ => none

/-- A binary operator on two known values. The logical operators decide on
their left operand alone and are not folded here. -/
def BinaryOperator.fold? (op : BinaryOperator) (left right : Value) : Option Value :=
  match op with
  | .logical _ => none
  | .arithmetic .add => addValues? left right
  | .arithmetic op => op.fold? left right
  | .compare op => (op.fold? left right).map .bool
  | .bitwise op => op.fold? left right
  | .equal strict negated =>
      (if strict then strictlyEqual? left right else looselyEqual? left right).map fun equal =>
        .bool (equal != negated)
  | .has => (hasKey? left right).map .bool

/-- Unary operators that fold. -/
inductive UnaryOperator
  | typeName | discard | not | negate | plus | complement
  deriving DecidableEq, Repr

/-- The operator of this spelling. -/
def UnaryOperator.ofSymbol? : String → Option UnaryOperator
  | "typeof" => some .typeName
  | "void" => some .discard
  | "!" => some .not
  | "-" => some .negate
  | "+" => some .plus
  | "~" => some .complement
  | _ => none

/-- A unary operator on a known value. -/
def UnaryOperator.fold? (op : UnaryOperator) (value : Value) : Option Value :=
  match op, value with
  | .typeName, _ => some (.string value.typeName)
  | .discard, _ => some .undefined
  | .not, _ => some (.bool (!value.truthy))
  | .negate, .bigint n => some (.bigint (-n))
  | .negate, _ => value.toNumber?.map fun x => .number (-x)
  | .plus, _ => value.toNumber?.map .number
  | .complement, .bigint n => some (.bigint (-n - 1))
  | .complement, _ => value.toNumber?.map fun x => .number (ofSigned32 (~~~ toSigned32 x))

/-- A property of a known value, read at `span`. An entry of an array or object
keeps the place where it was written. -/
def propertyOf (value : Value) (key : String) (span : Span) : Evaluation :=
  let missing := Evaluation.known .undefined span
  match value with
  | .object entries => (Dictionary.get? key entries).getD missing
  | .array items =>
      if key = "length" then .known (.number (Float.ofNat items.length)) span
      else
        match indexOf? key with
        | some index => (items[index]?).getD missing
        | none => .dynamic
  | .string text =>
      let units := units text.toList
      if key = "length" then .known (.number (Float.ofNat units.length)) span
      else
        match indexOf? key with
        | some index =>
            match units[index]? with
            | some unit =>
                if 0xD800 ≤ unit && unit < 0xE000 then .dynamic
                else .known (.string (String.ofList [Char.ofNat unit])) span
            | none => missing
        | none => .dynamic
  | _ => .dynamic

end StyleSense
