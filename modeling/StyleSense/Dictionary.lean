/-
# Dictionaries

Values under distinct names, in the order in which the names first came. A name
that comes again keeps its place and takes the new value.
-/

namespace StyleSense

/-- Values under names, in insertion order. -/
abbrev Dictionary (α : Type) := List (String × α)

namespace Dictionary

variable {α : Type}

/-- The value under a name. -/
def get? (name : String) : Dictionary α → Option α
  | [] => none
  | (key, value) :: rest => if key = name then some value else get? name rest

/-- Puts a value under a name. -/
def put (name : String) (value : α) : Dictionary α → Dictionary α
  | [] => [(name, value)]
  | (key, old) :: rest =>
      if key = name then (name, value) :: rest else (key, old) :: put name value rest

/-- Puts all values of another dictionary, in its order. -/
def putAll (entries : Dictionary α) (d : Dictionary α) : Dictionary α :=
  entries.foldl (fun d (name, value) => put name value d) d

/-- Removes a name. -/
def erase (name : String) : Dictionary α → Dictionary α
  | [] => []
  | (key, value) :: rest => if key = name then rest else (key, value) :: erase name rest

/-- Whether a name has a value. -/
def has (name : String) (d : Dictionary α) : Bool :=
  (get? name d).isSome

theorem get?_put_self (name : String) (value : α) (d : Dictionary α) :
    get? name (put name value d) = some value := by
  induction d with
  | nil => simp [put, get?]
  | cons entry rest ih =>
      obtain ⟨key, old⟩ := entry
      by_cases h : key = name <;> simp [put, get?, h, ih]

theorem get?_put_of_ne {name other : String} (h : other ≠ name) (value : α) (d : Dictionary α) :
    get? other (put name value d) = get? other d := by
  induction d with
  | nil => simp [put, get?, Ne.symm h]
  | cons entry rest ih =>
      obtain ⟨key, old⟩ := entry
      by_cases hk : key = name
      · subst hk
        simp [put, get?, Ne.symm h]
      · simp only [put, hk, if_false, get?, ih]

end Dictionary

end StyleSense
