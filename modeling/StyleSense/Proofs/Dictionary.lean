/-
# Laws of dictionaries

What a look-up finds after each operation. Erasing takes away only the first
entry under a name, so the name is gone only where names are distinct; every
operation keeps them so.
-/

import Mathlib.Data.List.Nodup
import StyleSense.Dictionary

namespace StyleSense.Dictionary

variable {α : Type} {name other : String}

/-- The names of a dictionary. -/
def keys (d : Dictionary α) : List String :=
  d.map (·.1)

theorem get?_eq_none {d : Dictionary α} (h : name ∉ keys d) : get? name d = none := by
  induction d with
  | nil => rfl
  | cons entry d ih =>
      obtain ⟨key, value⟩ := entry
      simp only [keys, List.map_cons, List.mem_cons, not_or] at h
      rw [get?, if_neg (Ne.symm h.1), ih h.2]

theorem get?_ne_none_iff {d : Dictionary α} : get? name d ≠ none ↔ name ∈ keys d := by
  refine ⟨fun h => by_contra fun hkeys => h (get?_eq_none hkeys), fun h => ?_⟩
  induction d with
  | nil => exact absurd h List.not_mem_nil
  | cons entry d ih =>
      obtain ⟨key, value⟩ := entry
      by_cases hkey : key = name
      · rw [get?, if_pos hkey]
        exact Option.some_ne_none value
      · rw [get?, if_neg hkey]
        exact ih ((List.mem_cons.1 h).resolve_left (Ne.symm hkey))

theorem mem_of_get? {d : Dictionary α} {value : α} (h : get? name d = some value) :
    (name, value) ∈ d := by
  induction d with
  | nil => cases h
  | cons entry d ih =>
      obtain ⟨key, old⟩ := entry
      by_cases hkey : key = name
      · rw [get?, if_pos hkey, Option.some.injEq] at h
        rw [hkey, h]
        exact List.mem_cons_self
      · rw [get?, if_neg hkey] at h
        exact List.mem_cons_of_mem _ (ih h)

theorem keys_erase_sublist (name : String) (d : Dictionary α) :
    (keys (erase name d)).Sublist (keys d) := by
  induction d with
  | nil => exact List.Sublist.refl _
  | cons entry d ih =>
      obtain ⟨key, value⟩ := entry
      by_cases h : key = name
      · rw [erase, if_pos h]
        exact List.sublist_cons_self _ _
      · rw [erase, if_neg h]
        exact ih.cons_cons key

theorem nodup_keys_erase {d : Dictionary α} (h : (keys d).Nodup) (name : String) :
    (keys (erase name d)).Nodup :=
  h.sublist (keys_erase_sublist name d)

theorem not_mem_keys_erase {d : Dictionary α} (h : (keys d).Nodup) (name : String) :
    name ∉ keys (erase name d) := by
  induction d with
  | nil => exact List.not_mem_nil
  | cons entry d ih =>
      obtain ⟨key, value⟩ := entry
      obtain ⟨hkey, hd⟩ := List.nodup_cons.1 h
      by_cases heq : key = name
      · rw [erase, if_pos heq]
        exact heq ▸ hkey
      · rw [erase, if_neg heq]
        intro hmem
        rcases List.mem_cons.1 hmem with rfl | hmem
        · exact heq rfl
        · exact ih hd hmem

theorem get?_erase_self {d : Dictionary α} (h : (keys d).Nodup) (name : String) :
    get? name (erase name d) = none :=
  get?_eq_none (not_mem_keys_erase h name)

theorem get?_erase_of_ne (h : other ≠ name) (d : Dictionary α) :
    get? other (erase name d) = get? other d := by
  induction d with
  | nil => rfl
  | cons entry d ih =>
      obtain ⟨key, value⟩ := entry
      by_cases hkey : key = name
      · subst hkey
        rw [erase, if_pos rfl, get?, if_neg (Ne.symm h)]
      · rw [erase, if_neg hkey, get?, get?, ih]

theorem erase_eq_self {d : Dictionary α} (h : get? name d = none) : erase name d = d := by
  induction d with
  | nil => rfl
  | cons entry d ih =>
      obtain ⟨key, value⟩ := entry
      by_cases hkey : key = name
      · rw [get?, if_pos hkey] at h
        cases h
      · rw [get?, if_neg hkey] at h
        rw [erase, if_neg hkey, ih h]

theorem keys_erase (name : String) (d : Dictionary α) :
    keys (erase name d) = (keys d).erase name := by
  induction d with
  | nil => rfl
  | cons entry d ih =>
      obtain ⟨key, value⟩ := entry
      by_cases hkey : key = name
      · subst hkey
        rw [erase, if_pos rfl]
        exact (List.erase_cons_head _ _).symm
      · rw [erase, if_neg hkey]
        exact (congrArg (key :: ·) ih).trans (List.erase_cons_tail (by simpa using hkey)).symm

theorem length_erase_le (name : String) (d : Dictionary α) :
    (erase name d).length ≤ d.length := by
  simpa [keys] using (keys_erase_sublist name d).length_le

theorem length_erase_lt {d : Dictionary α} {value : α} (h : get? name d = some value) :
    (erase name d).length < d.length := by
  induction d with
  | nil => exact absurd h (by simp [get?])
  | cons entry d ih =>
      obtain ⟨key, old⟩ := entry
      by_cases hkey : key = name
      · rw [erase, if_pos hkey]
        exact Nat.lt_succ_self _
      · rw [get?, if_neg hkey] at h
        rw [erase, if_neg hkey]
        exact Nat.succ_lt_succ (ih h)

theorem keys_put_of_mem {d : Dictionary α} (h : name ∈ keys d) (value : α) :
    keys (put name value d) = keys d := by
  induction d with
  | nil => exact absurd h List.not_mem_nil
  | cons entry d ih =>
      obtain ⟨key, old⟩ := entry
      by_cases hkey : key = name
      · rw [put, if_pos hkey, hkey]
        rfl
      · have hmem : name ∈ keys d := (List.mem_cons.1 h).resolve_left (Ne.symm hkey)
        rw [put, if_neg hkey]
        exact congrArg (key :: ·) (ih hmem)

theorem keys_put_of_not_mem {d : Dictionary α} (h : name ∉ keys d) (value : α) :
    keys (put name value d) = keys d ++ [name] := by
  induction d with
  | nil => rfl
  | cons entry d ih =>
      obtain ⟨key, old⟩ := entry
      obtain ⟨hkey, hd⟩ := not_or.1 (mt List.mem_cons.2 h)
      rw [put, if_neg (Ne.symm hkey)]
      exact congrArg (key :: ·) (ih hd)

theorem nodup_keys_put {d : Dictionary α} (h : (keys d).Nodup) (name : String) (value : α) :
    (keys (put name value d)).Nodup := by
  by_cases hmem : name ∈ keys d
  · rwa [keys_put_of_mem hmem]
  · rw [keys_put_of_not_mem hmem]
    exact List.nodup_append_comm.1 (List.nodup_cons.2 ⟨hmem, h⟩)

theorem putAll_cons (name : String) (value : α) (entries d : Dictionary α) :
    putAll ((name, value) :: entries) d = putAll entries (put name value d) := rfl

theorem putAll_append (entries more d : Dictionary α) :
    putAll (entries ++ more) d = putAll more (putAll entries d) :=
  List.foldl_append

/-- What is there after an entry was put is that entry, or was there. -/
theorem eq_or_mem_of_mem_put {d : Dictionary α} {value : α} {entry : String × α}
    (h : entry ∈ put name value d) : entry = (name, value) ∨ entry ∈ d := by
  induction d with
  | nil => exact .inl (List.mem_singleton.1 h)
  | cons first d ih =>
      obtain ⟨key, old⟩ := first
      rw [put] at h
      split at h
      · rcases List.mem_cons.1 h with h | h
        · exact .inl h
        · exact .inr (List.mem_cons_of_mem _ h)
      · rcases List.mem_cons.1 h with rfl | h
        · exact .inr List.mem_cons_self
        · exact (ih h).imp_right (List.mem_cons_of_mem _)

theorem mem_or_mem_of_mem_putAll {entries d : Dictionary α} {entry : String × α}
    (h : entry ∈ putAll entries d) : entry ∈ entries ∨ entry ∈ d := by
  induction entries generalizing d with
  | nil => exact .inr h
  | cons first entries ih =>
      rcases ih h with h | h
      · exact .inl (List.mem_cons_of_mem _ h)
      · rcases eq_or_mem_of_mem_put h with rfl | h
        · exact .inl List.mem_cons_self
        · exact .inr h

/-- What is found after some entries were put is one of them, or was there. -/
theorem mem_or_get?_of_get?_putAll {entries d : Dictionary α} {value : α}
    (h : get? name (putAll entries d) = some value) :
    (name, value) ∈ entries ∨ get? name d = some value := by
  induction entries generalizing d with
  | nil => exact .inr h
  | cons entry entries ih =>
      obtain ⟨key, first⟩ := entry
      rw [putAll_cons] at h
      rcases ih h with hmem | hfound
      · exact .inl (List.mem_cons_of_mem _ hmem)
      · by_cases hkey : name = key
        · subst hkey
          rw [get?_put_self, Option.some.injEq] at hfound
          exact .inl (hfound ▸ List.mem_cons_self)
        · rw [get?_put_of_ne hkey] at hfound
          exact .inr hfound

theorem get?_put_ne_none {d : Dictionary α} {value : α}
    (h : other = name ∨ get? other d ≠ none) : get? other (put name value d) ≠ none := by
  by_cases heq : other = name
  · rw [heq, get?_put_self]
    exact Option.some_ne_none value
  · rw [get?_put_of_ne heq]
    exact h.resolve_left heq

/-- A name that is put, or had a value, has one afterwards. -/
theorem get?_putAll_ne_none {entries d : Dictionary α}
    (h : (∃ value, (name, value) ∈ entries) ∨ get? name d ≠ none) :
    get? name (putAll entries d) ≠ none := by
  induction entries generalizing d with
  | nil => exact h.resolve_left fun ⟨_, hmem⟩ => List.not_mem_nil hmem
  | cons entry entries ih =>
      obtain ⟨key, first⟩ := entry
      rw [putAll_cons]
      apply ih
      rcases h with ⟨value, hmem⟩ | hd
      · rcases List.mem_cons.1 hmem with heq | hmem
        · exact .inr (get?_put_ne_none (.inl (congrArg Prod.fst heq)))
        · exact .inl ⟨value, hmem⟩
      · exact .inr (get?_put_ne_none (.inr hd))

theorem put_put_self (name : String) (first second : α) (d : Dictionary α) :
    put name second (put name first d) = put name second d := by
  induction d with
  | nil => simp only [put, if_true]
  | cons entry d ih =>
      obtain ⟨key, old⟩ := entry
      by_cases hkey : key = name
      · rw [put, if_pos hkey, put, if_pos rfl, put, if_pos hkey]
      · rw [put, if_neg hkey, put, if_neg hkey, put, if_neg hkey, ih]

theorem mem_keys_put_self (name : String) (value : α) (d : Dictionary α) :
    name ∈ keys (put name value d) := by
  by_cases hmem : name ∈ keys d
  · rwa [keys_put_of_mem hmem]
  · rw [keys_put_of_not_mem hmem]
    exact List.mem_append_right _ (List.mem_singleton_self name)

theorem mem_keys_put {d : Dictionary α} (h : other ∈ keys d) (name : String) (value : α) :
    other ∈ keys (put name value d) := by
  by_cases hmem : name ∈ keys d
  · rwa [keys_put_of_mem hmem]
  · rw [keys_put_of_not_mem hmem]
    exact List.mem_append_left _ h

/-- Two names are put in either order, if one of them has its place already. -/
theorem put_comm {d : Dictionary α} (hne : other ≠ name) (hmem : name ∈ keys d)
    (value more : α) :
    put name value (put other more d) = put other more (put name value d) := by
  induction d with
  | nil => exact absurd hmem List.not_mem_nil
  | cons entry d ih =>
      obtain ⟨key, old⟩ := entry
      by_cases hkey : key = name
      · subst hkey
        simp [put, hne.symm]
      · by_cases hother : key = other
        · subst hother
          simp [put, hkey]
        · have hmem := (List.mem_cons.1 hmem).resolve_left (Ne.symm hkey)
          simp only [put, hkey, hother, if_false, ih hmem]

/-- A name that has its place takes a value before or after others are put. -/
theorem put_putAll {entries d : Dictionary α} (hfresh : name ∉ keys entries)
    (hmem : name ∈ keys d) (value : α) :
    put name value (putAll entries d) = putAll entries (put name value d) := by
  induction entries generalizing d with
  | nil => rfl
  | cons entry entries ih =>
      obtain ⟨key, more⟩ := entry
      obtain ⟨hkey, hfresh⟩ := not_or.1 (mt List.mem_cons.2 hfresh)
      rw [putAll_cons, putAll_cons, ih hfresh (mem_keys_put hmem key more),
        put_comm (Ne.symm hkey) hmem]

/-- Putting a dictionary into another is the same before and after one more entry
is put into it. -/
theorem putAll_put {entries : Dictionary α} (h : (keys entries).Nodup) (name : String)
    (value : α) (d : Dictionary α) :
    putAll (put name value entries) d = put name value (putAll entries d) := by
  induction entries generalizing d with
  | nil => rfl
  | cons entry entries ih =>
      obtain ⟨key, old⟩ := entry
      obtain ⟨hfresh, h⟩ := List.nodup_cons.1 h
      by_cases hkey : key = name
      · subst hkey
        rw [put, if_pos rfl, putAll_cons, putAll_cons,
          put_putAll hfresh (mem_keys_put_self key old d), put_put_self]
      · rw [put, if_neg hkey, putAll_cons, putAll_cons, ih h]

theorem nodup_keys_putAll (entries : Dictionary α) {d : Dictionary α} (h : (keys d).Nodup) :
    (keys (putAll entries d)).Nodup := by
  induction entries generalizing d with
  | nil => exact h
  | cons entry entries ih => exact ih (nodup_keys_put h entry.1 entry.2)

/-- Entries may be gathered in a dictionary of their own before they are put. -/
theorem putAll_putAll {entries : Dictionary α} (h : (keys entries).Nodup)
    (more d : Dictionary α) :
    putAll (putAll more entries) d = putAll more (putAll entries d) := by
  induction more generalizing entries with
  | nil => rfl
  | cons entry more ih =>
      rw [putAll_cons, ih (nodup_keys_put h entry.1 entry.2), putAll_put h, putAll_cons]

theorem nodup_keys_cons_erase {d : Dictionary α} (h : (keys d).Nodup) (name : String)
    (value : α) : (keys ((name, value) :: erase name d)).Nodup :=
  List.nodup_cons.2 ⟨not_mem_keys_erase h name, nodup_keys_erase h name⟩

theorem get?_cons_self (name : String) (value : α) (d : Dictionary α) :
    get? name ((name, value) :: d) = some value := by
  rw [get?, if_pos rfl]

theorem get?_cons_erase_of_ne (h : other ≠ name) (value : α) (d : Dictionary α) :
    get? other ((name, value) :: erase name d) = get? other d := by
  rw [get?, if_neg (Ne.symm h), get?_erase_of_ne h]

/-- What is found among the first entries is found among all. -/
theorem get?_of_get?_take {count : Nat} {d : Dictionary α} {value : α}
    (h : get? name (d.take count) = some value) : get? name d = some value := by
  induction d generalizing count with
  | nil => rwa [List.take_nil] at h
  | cons entry d ih =>
      obtain ⟨key, old⟩ := entry
      cases count with
      | zero => exact absurd h (by simp [get?])
      | succ count =>
          rw [List.take_succ_cons, get?] at h
          rw [get?]
          split at h
          · rwa [if_pos ‹_›]
          · rw [if_neg ‹_›]
            exact ih h

/-- A name that comes early enough is found among the first entries. -/
theorem get?_take_of_idxOf_lt {count : Nat} {d : Dictionary α}
    (h : (keys d).idxOf name < count) : get? name (d.take count) = get? name d := by
  induction d generalizing count with
  | nil => rw [List.take_nil]
  | cons entry d ih =>
      obtain ⟨key, value⟩ := entry
      obtain ⟨count, rfl⟩ := Nat.exists_eq_add_one_of_ne_zero (Nat.ne_zero_of_lt h)
      rw [List.take_succ_cons, get?, get?]
      by_cases hkey : key = name
      · rw [if_pos hkey, if_pos hkey]
      · rw [if_neg hkey, if_neg hkey]
        rw [keys, List.map_cons, List.idxOf_cons_ne _ hkey] at h
        exact ih (Nat.lt_of_succ_lt_succ h)

theorem nodup_keys_take {d : Dictionary α} (h : (keys d).Nodup) (count : Nat) :
    (keys (d.take count)).Nodup :=
  h.sublist ((List.take_sublist count d).map _)

end StyleSense.Dictionary
