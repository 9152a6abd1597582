/-
# Records in JSON

A record is an object whose fields have fixed names. It may also be given as an
array of its fields in their order. Fields of other names are passed over,
whatever they hold; none of its own may come twice.
-/

import StyleSense.Json.Basic

namespace StyleSense.Json

/-- Whether no two fields have one name. -/
def distinctNames : List (String × Json) → Bool
  | [] => true
  | (name, _) :: rest => !rest.any (·.1 = name) && distinctNames rest

/-- The fields of a record with these names. As an array it has at least
`least` of them. -/
def recordFields? (names : List String) (least : Nat) : Json → Option (List (String × Json))
  | .object fields =>
      let own := fields.filter fun field => names.contains field.1
      if distinctNames own then some own else none
  | .array items =>
      if least ≤ items.length && items.length ≤ names.length then some (names.zip items) else none
  | _ => none

/-- The fields of a record, none of which may be left out in an array. -/
def record? (names : List String) : Json → Option (List (String × Json)) :=
  recordFields? names names.length

/-- A field that must be there. -/
def required? {α : Type} (read : Json → Option α) (name : String) (fields : List (String × Json)) :
    Option α :=
  (lookup? name fields).bind read

/-- A field with a default. One that is there must be readable. -/
def withDefault? {α : Type} (read : Json → Option α) (default : α) (name : String)
    (fields : List (String × Json)) : Option α :=
  match lookup? name fields with
  | some value => read value
  | none => some default

/-- A value or null. -/
def orNull? {α : Type} (read : Json → Option α) : Json → Option (Option α)
  | .null => some none
  | value => (read value).map some

/-- An object of values that `read` reads. Of values under one name the last
stays. -/
def asDictionary? {α : Type} (read : Json → Option α) : Json → Option (List (String × α))
  | .object fields =>
      (keepLast fields).mapM fun (name, value) => (read value).map (name, ·)
  | _ => none

end StyleSense.Json
