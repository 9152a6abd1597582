/-
# Access by index

A key names an item of an array, or a unit of a text, by a numeral. The canonical
numeral of an index is meant, without a sign and without zeros in front. What is
read as an index may have both, so that some keys give an item, and are found in
an array, which are no index at all. Nothing else is read as an index: behind the
sign and the zeros stands the canonical numeral.
-/

import StyleSense.Proofs.Evaluate.Likeness
import StyleSense.Proofs.Text.Numeral

namespace StyleSense

open StyleSense.Text

/-- A key is the canonical numeral of an index, or that behind zeros and perhaps a
plus sign. -/
def Spells (key : String) (index : Nat) : Prop :=
  ∃ sign ∈ ["", "+"], ∃ zeros,
    key = sign ++ (String.ofList (List.replicate zeros '0') ++ toString index)

/-- A key has no plus sign in front, and no zero in front of something else. -/
structure IsPlain (key : String) : Prop where
  unsigned : key.toList.head? ≠ some '+'
  unpadded : key.toList.head? = some '0' → key = "0"

variable {key : String} {index : Nat} {span : Span} {v : Value} {parts : List Evaluation}

theorem toList_toString (index : Nat) : (toString index).toList = Nat.toDigits 10 index := by
  rw [Nat.toString_eq_repr, Nat.toList_repr]

theorem spells_iff_toList :
    Spells key index ↔ ∃ sign ∈ [[], ['+']], ∃ zeros,
      key.toList = sign ++ (List.replicate zeros '0' ++ Nat.toDigits 10 index) := by
  simp only [Spells, List.mem_pair, exists_eq_or_imp, exists_eq_left]
  simp only [← String.toList_inj, String.toList_append, String.toList_ofList, toList_toString]
  rfl

theorem indexOf?_eq_some_iff :
    indexOf? key = some index ↔ index < Nat.pow 2 64 ∧ Spells key index := by
  rw [indexOf?, readBounded?_eq_some_iff, spells_iff_toList]

theorem spells_toString (index : Nat) : Spells (toString index) index :=
  spells_iff_toList.2 ⟨[], by simp, 0, toList_toString index⟩

/-- A plain key spells an index only if it is the canonical numeral. -/
theorem IsPlain.spells_iff (h : IsPlain key) (index : Nat) :
    Spells key index ↔ key = toString index := by
  constructor
  · intro hspells
    obtain ⟨sign, hsign, zeros, hkey⟩ := spells_iff_toList.1 hspells
    rcases List.mem_pair.1 hsign with rfl | rfl
    · cases zeros with
      | zero => exact String.toList_inj.1 (hkey.trans (toList_toString index).symm)
      | succ zeros =>
          rw [List.nil_append, List.replicate_succ, List.cons_append] at hkey
          have hzero := h.unpadded (by rw [hkey, List.head?_cons])
          have hlength := congrArg List.length hkey
          rw [hzero] at hlength
          simp at hlength
    · exact absurd (by rw [hkey]; rfl) h.unsigned
  · rintro rfl
    exact spells_toString index

/-- No key but the name of the length has that name. -/
theorem not_spells_length (index : Nat) : ¬Spells "length" index := by
  intro h
  obtain ⟨sign, hsign, zeros, hkey⟩ := spells_iff_toList.1 h
  have hletter : 'h' ∈ sign ++ (List.replicate zeros '0' ++ Nat.toDigits 10 index) :=
    hkey ▸ by decide
  rcases List.mem_append.1 hletter with hletter | hletter
  · rcases List.mem_pair.1 hsign with rfl | rfl <;> simp at hletter
  · have hdigit := isDigit_of_mem_zeros hletter
    cases hdigit

/-- One unit of a text, as a text. Half of a surrogate pair is none. -/
def unitAt (span : Span) (unit : Nat) : Evaluation :=
  if 0xD800 ≤ unit && unit < 0xE000 then .dynamic
  else .known (.string (String.ofList [Char.ofNat unit])) span

/-- What an index may name: the items of an array, or the units of a text. -/
def Value.parts? (span : Span) : Value → Option (List Evaluation)
  | .array items => some items
  | .string text => some ((units text.toList).map (unitAt span))
  | _ => none

/-- What is found at a key: the part at an index that the key spells, the number
of parts, and no part at any other key. -/
structure ReadsAt (key : String) (span : Span) (parts : List Evaluation) (found : Evaluation) :
    Prop where
  part : ∀ i (h : i < parts.length), i < Nat.pow 2 64 → Spells key i → found = parts[i]
  length : key = "length" → found = .known (.number (Float.ofNat parts.length)) span
  other : key ≠ "length" → (∀ i < parts.length, ¬Spells key i) →
    found = .known .undefined span ∨ found = .dynamic

/-- Arrays and texts are read alike. -/
theorem propertyOf_of_parts? (h : v.parts? span = some parts) :
    propertyOf v key span =
      if key = "length" then .known (.number (Float.ofNat parts.length)) span
      else
        match indexOf? key with
        | some index => (parts[index]?).getD (.known .undefined span)
        | none => .dynamic := by
  cases v with
  | array items =>
      cases h
      rfl
  | string text =>
      cases h
      simp only [propertyOf, List.length_map, List.getElem?_map]
      cases indexOf? key with
      | none => rfl
      | some index =>
          dsimp only
          cases (units text.toList)[index]? <;> rfl
  | _ => cases h

theorem readsAt_propertyOf (h : v.parts? span = some parts) :
    ReadsAt key span parts (propertyOf v key span) := by
  rw [propertyOf_of_parts? h]
  by_cases hlength : key = "length"
  · subst hlength
    rw [if_pos rfl]
    exact ⟨fun i _ _ hspells => absurd hspells (not_spells_length i), fun _ => rfl,
      fun hne => absurd rfl hne⟩
  · rw [if_neg hlength]
    refine ⟨?_, fun heq => absurd heq hlength, fun _ hnone => ?_⟩
    · intro i hi hbound hspells
      rw [indexOf?_eq_some_iff.2 ⟨hbound, hspells⟩]
      simp only [List.getElem?_eq_getElem hi, Option.getD_some]
    · cases hindex : indexOf? key with
      | none => exact .inr rfl
      | some index =>
          have hspells := (indexOf?_eq_some_iff.1 hindex).2
          have hpast : parts.length ≤ index := Nat.le_of_not_lt fun hi => hnone index hi hspells
          exact .inl (by simp only [List.getElem?_eq_none hpast, Option.getD_none])

/-- An array has the key of its length, and those that spell one of its indices. -/
theorem hasKey?_array {k : Value} (hkey : k.toText? = some key) (items : List Evaluation) :
    ∃ b, hasKey? k (.array items) = some b ∧
      (b = true ↔ key = "length" ∨ ∃ i < items.length, i < Nat.pow 2 64 ∧ Spells key i) := by
  refine ⟨_, by rw [hasKey?, hkey]; rfl, ?_⟩
  simp only [Bool.or_eq_true, decide_eq_true_eq, Option.any_eq_true, indexOf?_eq_some_iff]
  exact or_congr_right (exists_congr fun i => by tauto)

namespace Tracker

/-- An item of a known array, or a unit of a known text, is read at a key that
spells its index, and no other key gives one; an array has no further keys but
`length`. A key without a sign and without zeros in front spells an index only if
it is the canonical numeral. -/
theorem readsAt_spelled (t : Tracker) (span : Span) {object : Node} (key : String)
    (hobject : (t.evaluate object).value? = some v) :
    (∀ property parts, t.evaluateKey property = some key → v.parts? span = some parts →
      ReadsAt key span parts (t.evaluate (.member span object property))) ∧
    (∀ left items, (t.evaluate left).text? = some key → v = .array items →
      ∃ b, t.evaluate (.binary span "in" left object) = .known (.bool b) span ∧
        (b = true ↔ key = "length" ∨ ∃ i < items.length, i < Nat.pow 2 64 ∧ Spells key i)) ∧
    (IsPlain key → ∀ i, Spells key i ↔ key = toString i) := by
  refine ⟨?_, ?_, IsPlain.spells_iff⟩
  · intro property parts hkey hparts
    have hmember : t.evaluate (.member span object property) = propertyOf v key span := by
      rw [evaluate_member, hkey]
      cases hvalue : t.evaluate object with
      | known w place =>
          rw [hvalue] at hobject
          cases hobject
          rfl
      | _ =>
          rw [hvalue] at hobject
          cases hobject
    rw [hmember]
    exact readsAt_propertyOf hparts
  · rintro left items hleft rfl
    obtain ⟨k, hk, hkey⟩ := Option.bind_eq_some_iff.1 hleft
    obtain ⟨b, hb, hiff⟩ := hasKey?_array hkey items
    refine ⟨b, ?_, hiff⟩
    have hop : BinaryOperator.ofSymbol? "in" = some .has := rfl
    rw [t.evaluate_binary_of_strict hop nofun, hk, hobject]
    simp only [Option.bind_some, BinaryOperator.fold?, hb, Option.map_some]
    rfl

/-- `["red", "blue"]` -/
def redBlue : Node :=
  .array ⟨1, 16⟩ [some ⟨none, .string ⟨2, 7⟩ "red"⟩, some ⟨none, .string ⟨9, 15⟩ "blue"⟩]

/-- `["red", "blue"][key]` -/
def redBlueAt (key : String) : Node :=
  .member ⟨1, 21⟩ redBlue (.wrapped .computed ⟨16, 21⟩ (.string ⟨17, 20⟩ key))

/-- `key in ["red", "blue"]` -/
def inRedBlue (key : String) : Node :=
  .binary ⟨1, 21⟩ "in" (.string ⟨17, 20⟩ key) redBlue

/-- The items of `redBlue`. -/
def redBlueItems : List Evaluation :=
  [.known (.string "red") ⟨2, 7⟩, .known (.string "blue") ⟨9, 15⟩]

theorem isPlain_one : IsPlain "1" :=
  ⟨by decide, fun h => absurd h (by decide)⟩

theorem readsAt_spelled_redBlue :
    (new.evaluate redBlue).value? = some (.array redBlueItems) ∧
      ReadsAt "1" ⟨1, 21⟩ redBlueItems (new.evaluate (redBlueAt "1")) ∧
      (∃ b, new.evaluate (inRedBlue "1") = .known (.bool b) ⟨1, 21⟩ ∧
        (b = true ↔ "1" = "length" ∨ ∃ i < redBlueItems.length, i < Nat.pow 2 64 ∧ Spells "1" i)) ∧
      IsPlain "1" ∧ (Spells "1" 1 ↔ "1" = toString 1) := by
  have hvalue : (new.evaluate redBlue).value? = some (.array redBlueItems) := rfl
  have ⟨hmember, hin, hplain⟩ := new.readsAt_spelled ⟨1, 21⟩ "1" hvalue
  exact ⟨hvalue, hmember _ _ rfl rfl, hin _ _ rfl rfl, isPlain_one, hplain isPlain_one 1⟩

/-- A numeral behind a zero is the canonical numeral of no index, but names an item
of an array and a unit of a text, and is found in the array. -/
theorem reads_behind_zero :
    new.evaluate (redBlueAt "01") = redBlueItems[1] ∧
      new.evaluate (.member ⟨1, 9⟩ (.string ⟨1, 5⟩ "ab")
        (.wrapped .computed ⟨5, 9⟩ (.string ⟨6, 8⟩ "01"))) = .known (.string "b") ⟨1, 9⟩ ∧
      new.evaluate (inRedBlue "01") = .known (.bool true) ⟨1, 21⟩ ∧
      "01" ≠ "length" ∧ ∀ i : Nat, "01" ≠ toString i := by
  refine ⟨rfl, rfl, rfl, by decide, ?_⟩
  intro i hi
  have hdigits : Nat.toDigits 10 i = ['0', '1'] := by
    rw [← toList_toString, ← hi]
    rfl
  have hone : i = 1 := by
    rw [← Nat.ofDigitChars_ten_toDigits (n := i), hdigits]
    rfl
  rw [hone] at hdigits
  exact absurd hdigits (by decide)

end Tracker

end StyleSense
