/-
# JSON values

A value as its text gives it: object fields keep their order, and a name may
occur twice. A part that is well formed but stands for nothing (a lone
surrogate, a number beyond the doubles, an object with such a name) is kept as
`unreadable`: it may be passed over, but not read.
-/

namespace StyleSense

/-- A JSON number: a 64-bit integer, signed or unsigned, or a double. -/
inductive JsonNumber
  | integer (value : Int)
  | real (value : Float)
  deriving Repr, Inhabited

/-- A JSON value. -/
inductive Json
  | null
  | bool (value : Bool)
  | number (value : JsonNumber)
  | string (value : String)
  | array (items : List Json)
  | object (fields : List (String × Json))
  | unreadable
  deriving Repr, Inhabited

namespace JsonNumber

/-- Every number is a double. -/
def toFloat : JsonNumber → Float
  | integer value => Float.ofInt value
  | real value => value

end JsonNumber

namespace Json

/-- The first field of this name in a list of fields. -/
def lookup? (name : String) : List (String × Json) → Option Json
  | [] => none
  | (key, value) :: rest => if key = name then some value else lookup? name rest

/-- A field of an object. -/
def field? (name : String) : Json → Option Json
  | object fields => lookup? name fields
  | _ => none

mutual
/-- Whether the value can be read: everything in it stands for something, and
it nests at most `depth` arrays and objects. -/
def readable (depth : Nat) : Json → Bool
  | unreadable => false
  | array items => depth ≠ 0 && readableItems (depth - 1) items
  | object fields => depth ≠ 0 && readableFields (depth - 1) fields
  | _ => true

/-- Every item can be read. -/
def readableItems (depth : Nat) : List Json → Bool
  | [] => true
  | item :: rest => readable depth item && readableItems depth rest

/-- Every field can be read. -/
def readableFields (depth : Nat) : List (String × Json) → Bool
  | [] => true
  | (_, value) :: rest => readable depth value && readableFields depth rest
end

/-- Arrays and objects nest at most this deep in a value that is read. -/
def maxDepth : Nat := 127

mutual
/-- The value as a dictionary holds it: of fields with one name the last
stays. -/
def lastFields : Json → Json
  | array items => array (lastFieldsItems items)
  | object fields => object (keepLast (lastFieldsOf fields))
  | value => value

/-- Every item as a dictionary holds it. -/
def lastFieldsItems : List Json → List Json
  | [] => []
  | item :: rest => lastFields item :: lastFieldsItems rest

/-- Every field's value as a dictionary holds it. -/
def lastFieldsOf : List (String × Json) → List (String × Json)
  | [] => []
  | (key, value) :: rest => (key, lastFields value) :: lastFieldsOf rest

/-- Fields without those whose name comes again. -/
def keepLast : List (String × Json) → List (String × Json)
  | [] => []
  | (key, value) :: rest =>
      if rest.any (·.1 = key) then keepLast rest else (key, value) :: keepLast rest
end

/-! Readers of single values. -/

/-- A string. -/
def asString? : Json → Option String
  | string value => some value
  | _ => none

/-- A boolean. -/
def asBool? : Json → Option Bool
  | bool value => some value
  | _ => none

/-- Any number, as a double. -/
def asFloat? : Json → Option Float
  | number value => some value.toFloat
  | _ => none

/-- An integer in a range. -/
def asIntegerIn? (low high : Int) : Json → Option Int
  | number (.integer value) => if low ≤ value && value ≤ high then some value else none
  | _ => none

/-- An unsigned 32-bit integer. -/
def asWord? (value : Json) : Option UInt32 :=
  (value.asIntegerIn? 0 4294967295).map fun n => UInt32.ofNat n.toNat

/-- An array whose items `read` reads. -/
def asList? {α : Type} (read : Json → Option α) : Json → Option (List α)
  | array items => items.mapM read
  | _ => none

end Json

end StyleSense
