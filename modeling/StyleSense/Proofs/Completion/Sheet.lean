/-
# A sheet gives back its value

The layout of a sheet is not kept but found again, by a search forwards for the
separator before the value and one backwards for the tail behind it. The value
may hold both: the separator of the sheet is the first one if the property has
none, and the tail of the sheet is always the last one.

Offsets count code units and cuts are at bytes. What stands before the value is
ASCII, so both count it alike, whatever the value is.
-/

import StyleSense.Proofs.Completion.Keyword

namespace StyleSense.Text

theorem length_unitsOf (c : Char) : (unitsOf c).length = unitWidth c := by
  rw [unitsOf, unitWidth]
  split <;> rfl

theorem length_units (cs : List Char) : (units cs).length = unitLength cs := by
  induction cs with
  | nil => rfl
  | cons c cs ih =>
      rw [units, List.flatMap_cons, List.length_append, length_unitsOf]
      exact congrArg (unitWidth c + ·) ih

theorem units_append (a b : List Char) : units (a ++ b) = units a ++ units b :=
  List.flatMap_append

variable {word : List Char}

theorem findLastBytes?_of_length_lt {cs : List Char} (h : cs.length < word.length) :
    findLastBytes? word cs = none := by
  induction cs with
  | nil =>
      rw [findLastBytes?, if_neg]
      rw [List.isEmpty_iff_length_eq_zero]
      exact Nat.ne_of_gt h
  | cons c cs ih =>
      have hnot : ¬word.isPrefixOf (c :: cs) = true := fun hstarts =>
        Nat.not_le.2 h (List.isPrefixOf_iff_prefix.1 hstarts).length_le
      rw [findLastBytes?, ih (Nat.lt_of_succ_lt h)]
      exact if_neg hnot

/-- A word at the end of a text occurs nowhere behind that. -/
theorem findLastBytes?_append (h : word ≠ []) (before : List Char) :
    findLastBytes? word (before ++ word) = some (byteLength before) := by
  induction before with
  | nil =>
      cases word with
      | nil => exact absurd rfl h
      | cons c cs =>
          rw [List.nil_append, findLastBytes?, findLastBytes?_of_length_lt (Nat.lt_succ_self _)]
          exact if_pos (List.isPrefixOf_iff_prefix.2 (List.prefix_refl _))
  | cons c before ih => rw [List.cons_append, findLastBytes?, ih, byteLength_cons]

end StyleSense.Text

namespace StyleSense.Completion

open StyleSense.Text

namespace Declaration

variable {d : Declaration}

theorem byteLength_lead (h : d.Separable) : byteLength d.lead = d.valueStart := by
  rw [byteLength_of_isAscii (isAscii_lead h), valueStart_eq h]

theorem valueStop_eq (h : d.Separable) :
    d.valueStop = byteLength (d.lead ++ d.value.toList) := by
  have htail := findLastBytes?_append (show sheetTail ≠ [] by decide) (d.lead ++ d.value.toList)
  rw [valueStop, sheet_eq_lead, htail, Option.getD_some, byteLength_append, byteLength_lead h]
  exact Nat.max_eq_left (Nat.le_add_right _ _)

theorem slice?_value (h : d.Separable) :
    slice? d.sheet d.valueStart d.valueStop = some d.value.toList :=
  slice?_eq_some_iff.2 ⟨d.lead, sheetTail, sheet_eq_lead d, byteLength_lead h,
    (valueStop_eq h).symm⟩

theorem sheetValue_eq (h : d.Separable) : d.sheetValue = d.value := by
  rw [sheetValue, slice?_value h, Option.getD_some, String.ofList_toList]

theorem unitLength_lead (h : d.Separable) : unitLength d.lead = d.valueStart := by
  rw [unitLength_of_isAscii (isAscii_lead h), valueStart_eq h]

theorem mapOffset_succ (d : Declaration) (k : Nat) : d.mapOffset (k + 1) = d.valueStart + k := by
  rw [mapOffset, valueStart]
  omega

theorem unitLength_sheet (d : Declaration) :
    unitLength d.sheet = unitLength d.lead + unitLength d.value.toList + 3 := by
  rw [sheet_eq_lead, LineIndex.unitLength_append, LineIndex.unitLength_append]
  rfl

/-- Up to the end of the value, an offset leads to a position and back. -/
theorem offsetAt_positionAt_mapOffset (h : d.Separable) (hsize : unitLength d.sheet < UInt32.size)
    {k : Nat} (hk : k ≤ unitLength d.value.toList) :
    d.offsetAt (d.positionAt (d.mapOffset (k + 1))) = d.mapOffset (k + 1) := by
  have hback := LineIndex.offsetAt_positionAt (LineIndex.valid_ofText d.sheet) hsize
    (d.mapOffset (k + 1))
  rw [offsetAt, positionAt, lines, hback]
  refine Nat.min_eq_left ?_
  show _ ≤ unitLength d.sheet
  rw [unitLength_sheet, unitLength_lead h, mapOffset_succ]
  omega

/-- The main statement. If the property is ASCII and has no separator of its own,
the value is cut out of the sheet as it was put in. The code unit with the number
`k` of the value is then at the offset that the place behind as many units of the
literal is mapped to, which has a position of its own if the sheet has fewer than
`UInt32.size` code units. -/
theorem sheet_holds_value (d : Declaration) (hproperty : IsAscii d.property.toList)
    (hseparated : ¬": ".toList <:+: d.property.toList)
    (hsize : unitLength d.sheet < UInt32.size) :
    slice d.sheet d.valueStart d.valueStop = .ok d.value.toList ∧
      d.sheetValue = d.value ∧
      ∀ k < (units d.value.toList).length,
        d.mapOffset (k + 1) =
          (units (":root\x7b\n".toList ++ d.property.toList ++ ": ".toList)).length + k ∧
        (units d.sheet)[d.mapOffset (k + 1)]? = (units d.value.toList)[k]? ∧
        d.offsetAt (d.positionAt (d.mapOffset (k + 1))) = d.mapOffset (k + 1) := by
  have h : d.Separable := ⟨hproperty, hseparated⟩
  refine ⟨slice_eq_ok (slice?_value h), sheetValue_eq h, fun k hk => ?_⟩
  have hunits : d.mapOffset (k + 1) = (units d.lead).length + k := by
    rw [length_units, unitLength_lead h, mapOffset_succ]
  refine ⟨hunits, ?_, ?_⟩
  · rw [sheet_eq_lead, units_append, units_append, hunits, List.append_assoc,
      List.getElem?_append_right (Nat.le_add_right _ _), Nat.add_sub_cancel_left,
      List.getElem?_append_left hk]
  · rw [length_units] at hk
    exact offsetAt_positionAt_mapOffset h hsize (Nat.le_of_lt hk)

/-- The property ends in a colon, and the value holds a separator, a tail and a
surrogate pair, which is its fourth and fifth code unit. -/
theorem sheet_holds_value_nested :
    let d : Declaration := ⟨"a:", ": \x7d😀;\n\x7d"⟩
    IsAscii d.property.toList ∧ ¬": ".toList <:+: d.property.toList ∧
      unitLength d.sheet < UInt32.size ∧ d.sheetValue = d.value ∧ d.mapOffset 5 = 15 ∧
      (units d.sheet)[d.mapOffset 5]? = some 0xDE00 ∧
      d.offsetAt (d.positionAt (d.mapOffset 5)) = d.mapOffset 5 := by
  intro d
  have hascii : IsAscii d.property.toList := by decide
  have hseparated : ¬": ".toList <:+: d.property.toList := by decide
  have hsize : unitLength d.sheet < UInt32.size := by decide
  obtain ⟨-, hvalue, hunits⟩ := sheet_holds_value d hascii hseparated hsize
  obtain ⟨hoffset, hunit, hback⟩ := hunits 4 (by decide)
  exact ⟨hascii, hseparated, hsize, hvalue, hoffset.trans (by decide), hunit.trans (by decide),
    hback⟩

end Declaration

end StyleSense.Completion
