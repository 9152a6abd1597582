/-
# Which zeros are dropped

Whether a zero leads a fraction is told by the characters beside it: the one before
it and the two behind it, as they stand in the text. Stripping looks at each place
while zeros before it have already been left out. It drops the zeros that lead a
fraction all the same, and nothing else: a zero that goes is followed by a point that
stays, so no two neighbours go, and no zero comes to lead a fraction because another
one is gone.
-/

import StyleSense.Proofs.Style.Normalize

namespace StyleSense.Style

open StyleSense.Text

/-- The character at place `i` is a zero that leads a fraction. -/
structure IsLeadingZero (cs : List Char) (i : Nat) : Prop where
  zero : cs[i]? = some '0'
  /-- Nothing is in front of it that a number or a name could go on from. -/
  starts : i = 0 ∨ ∃ p, cs[i - 1]? = some p ∧ isAlphanumeric p = false ∧ p ≠ '.'
  point : cs[i + 1]? = some '.'
  digit : ∃ d, cs[i + 2]? = some d ∧ isDigit d = true

variable {cs lead rest : List Char} {c : Char} {i : Nat}

theorem leadsFraction_iff :
    leadsFraction rest = true ↔
      rest[0]? = some '.' ∧ ∃ d, rest[1]? = some d ∧ isDigit d = true := by
  constructor
  · intro h
    obtain ⟨d, rest, rfl, hd⟩ := exists_of_leadsFraction h
    exact ⟨rfl, d, rfl, hd⟩
  · rintro ⟨hpoint, d, hdigit, hd⟩
    match rest with
    | [] => cases hpoint
    | [_] => cases hdigit
    | _ :: _ :: _ =>
        cases hpoint
        cases hdigit
        exact hd

/-- The test of a zero behind `lead`, with `lead` and what follows joined to one text. -/
theorem isLeadingZero_append_iff :
    IsLeadingZero (lead ++ c :: rest) lead.length ↔
      c = '0' ∧ (lead.getLast?.any fun p => isAlphanumeric p || p = '.') = false ∧
        leadsFraction rest = true := by
  have hbehind (k : Nat) : (lead ++ c :: rest)[lead.length + (k + 1)]? = rest[k]? := by
    rw [List.getElem?_append_right (Nat.le_add_right _ _), Nat.add_sub_cancel_left,
      List.getElem?_cons_succ]
  have hat : (lead ++ c :: rest)[lead.length]? = some c := by
    rw [List.getElem?_append_right (Nat.le_refl _), Nat.sub_self, List.getElem?_cons_zero]
  have hstarts :
      (lead.length = 0 ∨ ∃ p, (lead ++ c :: rest)[lead.length - 1]? = some p ∧
          isAlphanumeric p = false ∧ p ≠ '.') ↔
        (lead.getLast?.any fun p => isAlphanumeric p || p = '.') = false := by
    cases hlast : lead.getLast? with
    | none => simp [List.getLast?_eq_none_iff.1 hlast]
    | some p =>
        have hne : lead ≠ [] := by
          rintro rfl
          cases hlast
        have hlength := List.length_pos_iff.2 hne
        rw [List.getElem?_append_left (by omega), ← List.getLast?_eq_getElem?, hlast]
        simp [hne]
  rw [leadsFraction_iff, ← hstarts, ← hbehind 0, ← hbehind 1]
  constructor
  · intro h
    exact ⟨Option.some.inj (hat.symm.trans h.zero), h.starts, h.point, h.digit⟩
  · rintro ⟨rfl, hfirst, hpoint, hdigit⟩
    exact ⟨hat, hfirst, hpoint, hdigit⟩

instance (cs : List Char) (i : Nat) : Decidable (IsLeadingZero cs i) :=
  decidable_of_iff
    (cs[i]? = some '0' ∧ (i = 0 ∨ (cs[i - 1]?.any fun p => !isAlphanumeric p && p ≠ '.')) ∧
      cs[i + 1]? = some '.' ∧ cs[i + 2]?.any isDigit) (by
    simp only [Option.any_eq_true, Bool.and_eq_true, Bool.not_eq_true', decide_eq_true_eq]
    exact ⟨fun ⟨hzero, hstarts, hpoint, hdigit⟩ => ⟨hzero, hstarts, hpoint, hdigit⟩,
      fun h => ⟨h.zero, h.starts, h.point, h.digit⟩⟩)

/-- What is behind `lead` is stripped place by place, `lead` still being looked at as
it was written. -/
theorem stripZerosFrom_eq (lead rest : List Char) :
    stripZerosFrom lead.getLast? rest =
      ((rest.zipIdx lead.length).filter fun x => ¬IsLeadingZero (lead ++ rest) x.2).map
        Prod.fst := by
  induction rest generalizing lead with
  | nil => rfl
  | cons c rest ih =>
      have hrest := ih (lead ++ [c])
      rw [List.getLast?_concat, List.length_append, List.length_singleton, List.append_assoc,
        List.singleton_append] at hrest
      rw [stripZerosFrom, hrest, List.zipIdx_cons, List.filter_cons]
      by_cases hlead : IsLeadingZero (lead ++ c :: rest) lead.length
      · obtain ⟨hc, hstarts, hfraction⟩ := isLeadingZero_append_iff.1 hlead
        rw [if_pos (by simp [hc, hstarts, hfraction]), if_neg (by simpa using hlead)]
      · rw [if_neg, if_pos (by simpa using hlead), List.map_cons]
        intro hdropped
        apply hlead
        rw [isLeadingZero_append_iff]
        simpa [and_assoc] using hdropped

theorem toList_stripLeadingZeros (s : String) :
    (stripLeadingZeros s).toList =
      (s.toList.zipIdx.filter fun x => ¬IsLeadingZero s.toList x.2).map Prod.fst := by
  rw [stripLeadingZeros, String.toList_ofList]
  exact stripZerosFrom_eq [] s.toList

/-- Directly behind a zero that leads a fraction is a point. -/
theorem IsLeadingZero.not_succ (h : IsLeadingZero cs i) : ¬IsLeadingZero cs (i + 1) := by
  intro hnext
  have hsame : some '.' = some '0' := h.point.symm.trans hnext.zero
  exact absurd hsame (by decide)

/-- A text is stripped of the zeros that lead a fraction in it and of nothing else. No
two of them are neighbours, and a text that has been stripped is left as it is. -/
theorem stripLeadingZeros_exact (s : String) :
    (stripLeadingZeros s).toList =
        (s.toList.zipIdx.filter fun x => ¬IsLeadingZero s.toList x.2).map Prod.fst ∧
      (∀ i, IsLeadingZero s.toList i → ¬IsLeadingZero s.toList (i + 1)) ∧
      stripLeadingZeros (stripLeadingZeros s) = stripLeadingZeros s :=
  ⟨toList_stripLeadingZeros s, fun _ h => h.not_succ, stripLeadingZeros_stripLeadingZeros s⟩

/-- A digit behind a point leads nothing. -/
example : stripLeadingZeros "0.0.5 10.5" = ".0.5 10.5" := by decide

end StyleSense.Style
