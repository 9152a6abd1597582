/-
# TOML tables

Tables are put together line by line, and no line may say again what an earlier
one has said. What a line may still add to a table depends on how the table
came to be: by a header of its own, because a header inside it implies it, or
by a dotted key.
-/

import StyleSense.Dictionary
import StyleSense.Json.Basic

namespace StyleSense.Toml

/-- How a table came to be. -/
inductive Origin
  | header
  | implied
  | dotted
  deriving DecidableEq, Repr

/-- What stands under a key. -/
inductive Item
  | value (json : Json)
  | table (origin : Origin) (entries : List (String × Item))
  /-- A row of tables that share a header, the last first. -/
  | row (tables : List (List (String × Item)))

/-- The keys of a table. -/
abbrev Entries := Dictionary Item

namespace Entries

/-- Changes the table at a path. Tables that are missing come to be as `fresh`,
a row of tables stands for its last one, and only tables that `enters` admits
are gone into. -/
def modify? (fresh : Origin) (enters : Origin → Bool)
    (change : Origin → Entries → Option Entries) :
    List String → Origin → Entries → Option Entries
  | [], origin, entries => change origin entries
  | key :: path, _, entries =>
      match Dictionary.get? key entries with
      | none => do
          let inner ← modify? fresh enters change path fresh []
          some (Dictionary.put key (.table fresh inner) entries)
      | some (.table origin inner) =>
          if enters origin then do
            let inner ← modify? fresh enters change path origin inner
            some (Dictionary.put key (.table origin inner) entries)
          else none
      | some (.row (last :: others)) => do
          let last ← modify? fresh enters change path .header last
          some (Dictionary.put key (.row (last :: others)) entries)
      | some _ => none

/-- Adds a value under a dotted key. The tables on the way must not have
headers, and the last of them must be one that dotted keys make. -/
def addPair? (path : List String) (key : String) (value : Json) (entries : Entries) :
    Option Entries :=
  modify? .dotted (· ≠ .header)
    (fun origin entries =>
      if decide (origin = .dotted) = !path.isEmpty && !Dictionary.has key entries then
        some (Dictionary.put key (.value value) entries)
      else none)
    path .header entries

/-- Adds a table by its header. It may be implied so far. -/
def addTable? (path : List String) (key : String) (entries : Entries) : Option Entries :=
  modify? .implied (fun _ => true)
    (fun _ entries =>
      match Dictionary.get? key entries with
      | none => some (Dictionary.put key (.table .header []) entries)
      | some (.table .implied inner) => some (Dictionary.put key (.table .header inner) entries)
      | some _ => none)
    path .header entries

/-- Adds a table to a row. -/
def addRow? (path : List String) (key : String) (entries : Entries) : Option Entries :=
  modify? .implied (fun _ => true)
    (fun _ entries =>
      match Dictionary.get? key entries with
      | none => some (Dictionary.put key (.row [[]]) entries)
      | some (.row tables) => some (Dictionary.put key (.row ([] :: tables)) entries)
      | some _ => none)
    path .header entries

/-- Adds a value to the table at `here`. -/
def addPairAt? (here path : List String) (key : String) (value : Json) (entries : Entries) :
    Option Entries :=
  modify? .header (fun _ => true) (fun _ entries => addPair? path key value entries)
    here .header entries

end Entries

mutual
/-- An item as a JSON value. -/
def Item.toJson : Item → Json
  | .value json => json
  | .table _ entries => .object (fieldsOf entries)
  | .row tables => .array (objectsOf tables).reverse

/-- The fields of a table. -/
def fieldsOf : List (String × Item) → List (String × Json)
  | [] => []
  | (key, item) :: rest => (key, item.toJson) :: fieldsOf rest

/-- Tables as objects. -/
def objectsOf : List (List (String × Item)) → List Json
  | [] => []
  | entries :: rest => .object (fieldsOf entries) :: objectsOf rest
end

end StyleSense.Toml
