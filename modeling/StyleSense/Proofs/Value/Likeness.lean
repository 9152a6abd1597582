/-
# Like evaluations

Two evaluations of one expression, in two settings, are alike when what is known
in the first is known in the second. Numbers, texts and the like are then equal,
and arrays and objects have like contents in the same places. A latitude says
what may differ otherwise: the places where values were written, and whether
what is not known in the first may be anything in the second.

The operators respect likeness. They see of an array or an object only its sort,
its size and its keys, so their answers on like operands are equal.
-/

import Mathlib.Data.List.Forall2
import StyleSense.Proofs.Dictionary
import StyleSense.Value.Operators

namespace StyleSense

namespace Dictionary

variable {α β : Type} {R : α → β → Prop} {d : Dictionary α} {e : Dictionary β}

/-- Entries under one name with related values. -/
inductive SameName (R : α → β → Prop) : String × α → String × β → Prop
  | mk (name : String) {a : α} {b : β} (h : R a b) : SameName R (name, a) (name, b)

/-- Dictionaries with the same names in the same order and related values. -/
def Related (R : α → β → Prop) : Dictionary α → Dictionary β → Prop :=
  List.Forall₂ (SameName R)

/-- Like dictionaries have a name both or neither. -/
theorem Related.get? (h : Related R d e) (name : String) :
    (get? name d = none ∧ get? name e = none) ∨
      ∃ a b, get? name d = some a ∧ get? name e = some b ∧ R a b := by
  induction h with
  | nil => exact .inl ⟨rfl, rfl⟩
  | @cons _ _ d e hentry _ ih =>
      obtain ⟨key, hvalue⟩ := hentry
      by_cases hkey : key = name
      · refine .inr ⟨_, _, ?_, ?_, hvalue⟩
        · rw [Dictionary.get?, if_pos hkey]
        · rw [Dictionary.get?, if_pos hkey]
      · rw [Dictionary.get?, if_neg hkey, Dictionary.get?, if_neg hkey]
        exact ih

theorem Related.has_eq (h : Related R d e) (name : String) : has name e = has name d := by
  rcases h.get? name with ⟨hd, he⟩ | ⟨a, b, hd, he, -⟩
  · rw [has, has, hd, he]
    rfl
  · rw [has, has, hd, he]
    rfl

theorem Related.put (h : Related R d e) (name : String) {a : α} {b : β} (hvalue : R a b) :
    Related R (put name a d) (put name b e) := by
  induction h with
  | nil => exact .cons (.mk name hvalue) .nil
  | @cons _ _ d e hentry hrest ih =>
      obtain ⟨key, hold⟩ := hentry
      by_cases hkey : key = name
      · rw [Dictionary.put, if_pos hkey, Dictionary.put, if_pos hkey]
        exact .cons (.mk name hvalue) hrest
      · rw [Dictionary.put, if_neg hkey, Dictionary.put, if_neg hkey]
        exact .cons (.mk key hold) ih

theorem Related.putAll {more : Dictionary α} {more' : Dictionary β} (hmore : Related R more more')
    (h : Related R d e) : Related R (putAll more d) (putAll more' e) := by
  induction hmore generalizing d e with
  | nil => exact h
  | cons hentry _ ih =>
      obtain ⟨name, hvalue⟩ := hentry
      exact ih (h.put name hvalue)

end Dictionary

/-- What a second setting may change of an evaluation. -/
structure Latitude where
  /-- Whether what was not known may be anything. -/
  loose : Prop
  /-- Which places stand for each other. -/
  place : Span → Span → Prop

/-- Arrays and objects. -/
def Value.isContainer : Value → Bool
  | .array _ | .object _ => true
  | _ => false

mutual

/-- Evaluations that differ as a latitude allows. -/
inductive Evaluation.Alike (r : Latitude) : Evaluation → Evaluation → Prop
  | opened {a b : Evaluation} (hloose : r.loose) (ha : a.value? = none) : Evaluation.Alike r a b
  | dynamic : Evaluation.Alike r .dynamic .dynamic
  | reference {path : String} {s t : Span} (hplace : r.place s t) :
      Evaluation.Alike r (.reference path s) (.reference path t)
  | known {v w : Value} {s t : Span} (hvalue : Value.Alike r v w) (hplace : r.place s t) :
      Evaluation.Alike r (.known v s) (.known w t)

/-- Values that differ as a latitude allows. -/
inductive Value.Alike (r : Latitude) : Value → Value → Prop
  | simple {v : Value} (h : v.isContainer = false) : Value.Alike r v v
  | array {xs ys : List Evaluation} (h : List.Forall₂ (Evaluation.Alike r) xs ys) :
      Value.Alike r (.array xs) (.array ys)
  | object {d e : List (String × Evaluation)}
      (h : List.Forall₂ (Dictionary.SameName (Evaluation.Alike r)) d e) :
      Value.Alike r (.object d) (.object e)

end

mutual

/-- Where places may stay, an evaluation is like itself. -/
theorem Evaluation.Alike.refl {r : Latitude} (hplace : ∀ s, r.place s s) :
    ∀ a : Evaluation, Evaluation.Alike r a a
  | .dynamic => .dynamic
  | .reference _ s => .reference (hplace s)
  | .known v s => .known (Value.Alike.refl hplace v) (hplace s)

theorem Value.Alike.refl {r : Latitude} (hplace : ∀ s, r.place s s) :
    ∀ v : Value, Value.Alike r v v
  | .array items => .array (alike_items hplace items)
  | .object entries => .object (alike_entries hplace entries)
  | .undefined | .null | .bool _ | .number _ | .bigint _ | .string _ | .regex .. => .simple rfl

theorem alike_items {r : Latitude} (hplace : ∀ s, r.place s s) :
    ∀ items : List Evaluation, List.Forall₂ (Evaluation.Alike r) items items
  | [] => .nil
  | a :: items => .cons (Evaluation.Alike.refl hplace a) (alike_items hplace items)

theorem alike_entries {r : Latitude} (hplace : ∀ s, r.place s s) :
    ∀ entries : List (String × Evaluation),
      List.Forall₂ (Dictionary.SameName (Evaluation.Alike r)) entries entries
  | [] => .nil
  | (name, a) :: entries =>
      .cons (.mk name (Evaluation.Alike.refl hplace a)) (alike_entries hplace entries)

end

/-- An answer that is the same again, or may be anything where there was none. -/
def Kept {α : Type} (loose : Prop) (old new : Option α) : Prop :=
  new = old ∨ loose ∧ old = none

namespace Kept

variable {α β : Type} {loose : Prop} {old new : Option α}

theorem refl (loose : Prop) (old : Option α) : Kept loose old old :=
  .inl rfl

theorem bind (h : Kept loose old new) {f g : α → Option β} (hfg : ∀ a, Kept loose (f a) (g a)) :
    Kept loose (old.bind f) (new.bind g) := by
  rcases h with rfl | ⟨hloose, rfl⟩
  · cases new with
    | none => exact refl loose none
    | some a => exact hfg a
  · exact .inr ⟨hloose, rfl⟩

theorem map (h : Kept loose old new) (f : α → β) : Kept loose (old.map f) (new.map f) := by
  rcases h with rfl | ⟨hloose, rfl⟩
  · exact refl loose _
  · exact .inr ⟨hloose, rfl⟩

end Kept

variable {r : Latitude} {v w v' w' : Value} {a b : Evaluation} {s t : Span}

namespace Value.Alike

theorem truthy_eq (h : Alike r v w) : w.truthy = v.truthy := by
  cases h <;> rfl

theorem isNullish_eq (h : Alike r v w) : w.isNullish = v.isNullish := by
  cases h <;> rfl

theorem isPrimitive_eq (h : Alike r v w) : w.isPrimitive = v.isPrimitive := by
  cases h <;> rfl

theorem isString_eq (h : Alike r v w) : w.isString = v.isString := by
  cases h <;> rfl

theorem toText?_eq (h : Alike r v w) : w.toText? = v.toText? := by
  cases h <;> rfl

theorem toNumber?_eq (h : Alike r v w) : w.toNumber? = v.toNumber? := by
  cases h <;> rfl

theorem keepsLeft_eq (op : Logical) (h : Alike r v w) : op.keepsLeft w = op.keepsLeft v := by
  cases op with
  | coalesce => rw [Logical.keepsLeft, Logical.keepsLeft, h.isNullish_eq]
  | _ => rw [Logical.keepsLeft, Logical.keepsLeft, h.truthy_eq]

theorem strictlyEqual?_eq (h : Alike r v w) (h' : Alike r v' w') :
    strictlyEqual? w w' = strictlyEqual? v v' := by
  cases h with
  | simple =>
      cases h' with
      | simple => rfl
      | _ => cases v <;> rfl
  | _ =>
      cases h' with
      | simple => cases v' <;> rfl
      | _ => rfl

theorem sameSort_eq (h : Alike r v w) (h' : Alike r v' w') : sameSort w w' = sameSort v v' := by
  cases h with
  | simple =>
      cases h' with
      | simple => rfl
      | _ => cases v <;> rfl
  | _ =>
      cases h' with
      | simple => cases v' <;> rfl
      | _ => rfl

theorem looselyEqual?_eq (h : Alike r v w) (h' : Alike r v' w') :
    looselyEqual? w w' = looselyEqual? v v' := by
  rw [looselyEqual?, looselyEqual?, h.isNullish_eq, h'.isNullish_eq, h.sameSort_eq h',
    h.strictlyEqual?_eq h', h.isPrimitive_eq, h'.isPrimitive_eq, h.toNumber?_eq, h'.toNumber?_eq]

theorem arithmetic_eq (op : Arithmetic) (h : Alike r v w) (h' : Alike r v' w') :
    op.fold? w w' = op.fold? v v' := by
  cases h with
  | simple =>
      cases h' with
      | simple => rfl
      | _ => cases v <;> rfl
  | _ =>
      cases h' with
      | simple => cases v' <;> rfl
      | _ => rfl

theorem addValues?_eq (h : Alike r v w) (h' : Alike r v' w') :
    addValues? w w' = addValues? v v' := by
  rw [addValues?, addValues?, h.isPrimitive_eq, h'.isPrimitive_eq, h.isString_eq, h'.isString_eq,
    h.toText?_eq, h'.toText?_eq, h.arithmetic_eq .add h']

theorem comparison_eq (op : Comparison) (h : Alike r v w) (h' : Alike r v' w') :
    op.fold? w w' = op.fold? v v' := by
  cases h with
  | simple =>
      cases h' with
      | simple => rfl
      | _ => cases v <;> rfl
  | _ =>
      cases h' with
      | simple => cases v' <;> rfl
      | _ => rfl

theorem bitwise_eq (op : Bitwise) (h : Alike r v w) (h' : Alike r v' w') :
    op.fold? w w' = op.fold? v v' := by
  rw [Bitwise.fold?, Bitwise.fold?, h.toNumber?_eq, h'.toNumber?_eq]

/-- Whether there is such a key depends on the size of an array and on the names
of an object. -/
theorem hasKey?_eq (h : Alike r v w) (h' : Alike r v' w') : hasKey? w w' = hasKey? v v' := by
  rw [hasKey?, hasKey?, h.toText?_eq]
  refine Option.bind_congr fun name _ => ?_
  cases h' with
  | simple => rfl
  | array hitems => simp only [hitems.length_eq]
  | object hentries => simp only [Dictionary.Related.has_eq hentries]

/-- Binary operators give equal answers on like operands. -/
theorem binary_eq (op : BinaryOperator) (h : Alike r v w) (h' : Alike r v' w') :
    op.fold? w w' = op.fold? v v' := by
  cases op with
  | logical op => rfl
  | arithmetic op =>
      cases op with
      | add => exact h.addValues?_eq h'
      | _ => exact h.arithmetic_eq _ h'
  | compare op => exact congrArg (Option.map Value.bool) (h.comparison_eq op h')
  | bitwise op => exact h.bitwise_eq op h'
  | equal strict negated =>
      simp only [BinaryOperator.fold?, h.strictlyEqual?_eq h', h.looselyEqual?_eq h']
  | has => exact congrArg (Option.map Value.bool) (h.hasKey?_eq h')

/-- Unary operators give equal answers on like operands. -/
theorem unary_eq (op : UnaryOperator) (h : Alike r v w) : op.fold? w = op.fold? v := by
  cases h with
  | simple => rfl
  | _ => cases op <;> rfl

end Value.Alike

/-! No operator gives an array or an object. -/

theorem isContainer_of_arithmetic {op : Arithmetic} (h : op.fold? v w = some v') :
    v'.isContainer = false := by
  unfold Arithmetic.fold? at h
  split at h
  · obtain ⟨n, -, rfl⟩ := Option.map_eq_some_iff.1 h
    rfl
  · cases h
  · cases h
  · simp only [Option.bind_eq_bind, Option.pure_def, Option.bind_eq_some_iff,
      Option.some.injEq] at h
    obtain ⟨x, -, y, -, rfl⟩ := h
    rfl

theorem isContainer_of_addValues? (h : addValues? v w = some v') : v'.isContainer = false := by
  unfold addValues? at h
  split at h
  · cases h
  · split at h
    · simp only [Option.bind_eq_bind, Option.pure_def, Option.bind_eq_some_iff,
        Option.some.injEq] at h
      obtain ⟨x, -, y, -, rfl⟩ := h
      rfl
    · exact isContainer_of_arithmetic h

theorem isContainer_of_binary {op : BinaryOperator} (h : op.fold? v w = some v') :
    v'.isContainer = false := by
  cases op with
  | logical op => cases h
  | arithmetic op =>
      cases op with
      | add => exact isContainer_of_addValues? h
      | _ => exact isContainer_of_arithmetic h
  | bitwise op =>
      simp only [BinaryOperator.fold?, Bitwise.fold?, Option.bind_eq_bind, Option.pure_def,
        Option.bind_eq_some_iff, Option.some.injEq] at h
      obtain ⟨x, -, y, -, rfl⟩ := h
      rfl
  | _ =>
      obtain ⟨answer, -, rfl⟩ := Option.map_eq_some_iff.1 h
      rfl

theorem isContainer_of_unary {op : UnaryOperator} (h : op.fold? v = some v') :
    v'.isContainer = false := by
  have hnumber : ∀ f : Float → Float, v.toNumber?.map (fun x => Value.number (f x)) = some v' →
      v'.isContainer = false := by
    intro f h
    obtain ⟨x, -, rfl⟩ := Option.map_eq_some_iff.1 h
    rfl
  unfold UnaryOperator.fold? at h
  split at h
  case h_5 => exact hnumber _ h
  case h_6 => exact hnumber _ h
  case h_8 => exact hnumber _ h
  all_goals
    cases h
    rfl

namespace Evaluation.Alike

theorem of_value? (h : Alike r a b) (hv : a.value? = some v) :
    ∃ w, b.value? = some w ∧ Value.Alike r v w := by
  cases h with
  | opened _ ha =>
      rw [ha] at hv
      cases hv
  | dynamic => cases hv
  | reference => cases hv
  | known hvalue =>
      cases hv
      exact ⟨_, rfl, hvalue⟩

theorem of_value?_none (h : Alike r a b) (ha : a.value? = none) :
    r.loose ∨ b.value? = none := by
  cases h with
  | opened hloose => exact .inl hloose
  | dynamic => exact .inr rfl
  | reference => exact .inr rfl
  | known => cases ha

/-- Like evaluations are both unknown, if the second may not become known, or
have like values. -/
theorem value?_cases (h : Alike r a b) :
    (a.value? = none ∧ (r.loose ∨ b.value? = none)) ∨
      ∃ v w, a.value? = some v ∧ b.value? = some w ∧ Value.Alike r v w := by
  cases hv : a.value? with
  | none => exact .inl ⟨rfl, h.of_value?_none hv⟩
  | some v =>
      obtain ⟨w, hw, hvalue⟩ := h.of_value? hv
      exact .inr ⟨v, w, rfl, hw, hvalue⟩

/-- Questions about known values that agree on like values do so on like
evaluations. -/
theorem bind_value? {α : Type} {f g : Value → Option α} (h : Alike r a b)
    (hfg : ∀ v w, Value.Alike r v w → Kept r.loose (f v) (g w)) :
    Kept r.loose (a.value?.bind f) (b.value?.bind g) := by
  rcases h.value?_cases with ⟨ha, hloose | hb⟩ | ⟨v, w, hv, hw, hvalue⟩
  · rw [ha]
    exact .inr ⟨hloose, rfl⟩
  · rw [ha, hb]
    exact .refl _ _
  · rw [hv, hw]
    exact hfg v w hvalue

/-- A known answer at a place, or none. -/
theorem ofOption (hplace : r.place s t) {old new : Option Value} (h : Kept r.loose old new)
    (hold : ∀ v, old = some v → v.isContainer = false) :
    Alike r (.ofOption s old) (.ofOption t new) := by
  rcases h with rfl | ⟨hloose, rfl⟩
  · cases new with
    | none => exact .dynamic
    | some v => exact .known (.simple (hold v rfl)) hplace
  · exact .opened hloose rfl

/-- A property of like values. -/
theorem propertyOf (h : Value.Alike r v w) (key : String) (hplace : r.place s t) :
    Alike r (propertyOf v key s) (propertyOf w key t) := by
  have hmissing : Alike r (.known .undefined s) (.known .undefined t) :=
    .known (.simple rfl) hplace
  cases h with
  | object hentries =>
      simp only [StyleSense.propertyOf]
      rcases Dictionary.Related.get? hentries key with ⟨hd, he⟩ | ⟨old, new, hd, he, hvalue⟩
      · rw [hd, he]
        exact hmissing
      · rw [hd, he]
        exact hvalue
  | @array xs ys hitems =>
      have hlength := hitems.length_eq
      simp only [StyleSense.propertyOf, hlength]
      split
      · exact .known (.simple rfl) hplace
      · split
        · rename_i index _
          by_cases hindex : index < xs.length
          · have hindex' : index < ys.length := hlength ▸ hindex
            rw [List.getElem?_eq_getElem hindex, List.getElem?_eq_getElem hindex']
            exact hitems.get hindex hindex'
          · rw [List.getElem?_eq_none (Nat.le_of_not_lt hindex),
              List.getElem?_eq_none (hlength ▸ Nat.le_of_not_lt hindex)]
            exact hmissing
        · exact .dynamic
  | simple hsimple =>
      cases v with
      | string text =>
          simp only [StyleSense.propertyOf]
          split
          · exact .known (.simple rfl) hplace
          · split
            · split
              · split
                · exact .dynamic
                · exact .known (.simple rfl) hplace
              · exact hmissing
            · exact .dynamic
      | array => cases hsimple
      | object => cases hsimple
      | _ => exact .dynamic

end Evaluation.Alike

end StyleSense
