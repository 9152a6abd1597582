/-
# First places

A text that is searched from a byte on is found at the first place, if there is one.
What counts as a place may depend on the neighbours there. A search goes through the
text character by character: where there is no place at a character, the first one
from there on is the first one behind the character.
-/

import Mathlib.Order.Bounds.Basic
import StyleSense.Proofs.Text.Cuts

namespace StyleSense.Text

/-- The text stands at byte `start` of a source, between neighbours that are admitted. -/
def StandsAt (admits : Option Char → Option Char → Prop) (text source : List Char)
    (start : Nat) : Prop :=
  ∃ before after, source = before ++ text ++ after ∧ byteLength before = start ∧
    admits before.getLast? after.head?

/-- The first place from a byte on, or that there is none. -/
def IsFirst (place : Nat → Prop) (cursor : Nat) : Option Nat → Prop
  | some start => IsLeast {m | cursor ≤ m ∧ place m} start
  | none => ∀ m, cursor ≤ m → ¬place m

variable {admits : Option Char → Option Char → Prop} {text source lead rest : List Char} {c : Char}
  {place other : Nat → Prop} {cursor start : Nat} {found others : Option Nat}

theorem StandsAt.start_isBoundary (h : StandsAt admits text source start) :
    isBoundary source start = true := by
  obtain ⟨before, after, rfl, rfl, -⟩ := h
  exact isBoundary_iff.2 ⟨before, text ++ after, List.append_assoc .., rfl⟩

theorem StandsAt.stop_isBoundary (h : StandsAt admits text source start) :
    isBoundary source (start + byteLength text) = true := by
  obtain ⟨before, after, rfl, rfl, -⟩ := h
  exact isBoundary_iff.2 ⟨before ++ text, after, rfl, byteLength_append ..⟩

theorem StandsAt.stop_le (h : StandsAt admits text source start) :
    start + byteLength text ≤ byteLength source :=
  le_byteLength_of_isBoundary h.stop_isBoundary

/-- What stands behind a lead is the start of the rest. -/
theorem standsAt_byteLength_iff :
    StandsAt admits text (lead ++ rest) (byteLength lead) ↔
      text <+: rest ∧ admits lead.getLast? (rest.drop text.length).head? := by
  constructor
  · rintro ⟨before, after, heq, hlength, hadmits⟩
    rw [List.append_assoc] at heq
    obtain ⟨rfl, rfl⟩ := append_inj_of_byteLength_eq heq hlength.symm
    rw [List.drop_left]
    exact ⟨⟨after, rfl⟩, hadmits⟩
  · rintro ⟨⟨after, rfl⟩, hadmits⟩
    rw [List.drop_left] at hadmits
    exact ⟨lead, after, (List.append_assoc ..).symm, rfl, hadmits⟩

theorem isFirst_some_of_place (h : place cursor) : IsFirst place cursor (some cursor) :=
  ⟨⟨Nat.le_refl _, h⟩, fun _ hm => hm.1⟩

/-- At the end of a source there is no place. -/
theorem isFirst_none_of_end (htext : text ≠ []) :
    IsFirst (StandsAt admits text source) (byteLength source) none := by
  intro m hm h
  have hpos := byteLength_pos htext
  have hstop := h.stop_le
  omega

/-- Where there is no place at a character, the search goes on behind it. -/
theorem IsFirst.of_cons
    (hplace : ∀ m, place m → isBoundary (lead ++ c :: rest) m = true)
    (hnot : ¬place (byteLength lead))
    (h : IsFirst place (byteLength (lead ++ [c])) found) :
    IsFirst place (byteLength lead) found := by
  have hlength : byteLength (lead ++ [c]) = byteLength lead + c.utf8Size := by
    rw [byteLength_append, byteLength_cons, byteLength_nil, Nat.add_zero]
  have hbehind {m : Nat} (hm : byteLength lead ≤ m) (hp : place m) :
      byteLength (lead ++ [c]) ≤ m := by
    rw [hlength]
    apply Nat.le_of_not_lt
    intro hinside
    have hne : byteLength lead ≠ m := by
      rintro rfl
      exact hnot hp
    have hcut : isBoundary (lead ++ c :: rest) m = false :=
      not_isBoundary_inside (Nat.lt_of_le_of_ne hm hne) hinside
    rw [hplace m hp] at hcut
    cases hcut
  cases found with
  | none => exact fun m hm hp => h m (hbehind hm hp) hp
  | some start =>
      obtain ⟨⟨hstart, hp⟩, hleast⟩ := h
      exact ⟨⟨by omega, hp⟩, fun m hm => hleast ⟨hbehind hm.1 hm.2, hm.2⟩⟩

/-- Of two kinds of places, the first one of either kind. -/
theorem IsFirst.or (h : IsFirst place cursor found) (hother : IsFirst other cursor others) :
    IsFirst (fun m => place m ∨ other m) cursor (found.merge min others) := by
  cases found with
  | none =>
      cases others with
      | none => exact fun m hm hp => hp.elim (h m hm) (hother m hm)
      | some b =>
          refine ⟨⟨hother.1.1, .inr hother.1.2⟩, fun m hm => ?_⟩
          exact hother.2 ⟨hm.1, hm.2.resolve_left (h m hm.1)⟩
  | some a =>
      cases others with
      | none =>
          refine ⟨⟨h.1.1, .inl h.1.2⟩, fun m hm => ?_⟩
          exact h.2 ⟨hm.1, hm.2.resolve_right (hother m hm.1)⟩
      | some b =>
          constructor
          · rcases Nat.le_total a b with hab | hba
            · rw [Nat.min_eq_left hab]
              exact ⟨h.1.1, .inl h.1.2⟩
            · rw [Nat.min_eq_right hba]
              exact ⟨hother.1.1, .inr hother.1.2⟩
          · rintro m ⟨hm, hp | hp⟩
            · exact (Nat.min_le_left a b).trans (h.2 ⟨hm, hp⟩)
            · exact (Nat.min_le_right a b).trans (hother.2 ⟨hm, hp⟩)

/-- A search that admits any neighbours finds the first place. -/
theorem isFirst_findBytes? (htext : text ≠ []) (lead rest : List Char) :
    IsFirst (StandsAt (fun _ _ => True) text (lead ++ rest)) (byteLength lead)
      ((findBytes? text rest).map (byteLength lead + ·)) := by
  induction rest generalizing lead with
  | nil =>
      have hempty : text.isEmpty = false := by simpa using htext
      rw [findBytes?, if_neg (by simp [hempty]), List.append_nil]
      exact isFirst_none_of_end htext
  | cons c rest ih =>
      rw [findBytes?]
      split
      next hstarts =>
        exact isFirst_some_of_place
          (standsAt_byteLength_iff.2 ⟨List.isPrefixOf_iff_prefix.1 hstarts, trivial⟩)
      next hstarts =>
        have hrest := ih (lead ++ [c])
        rw [List.append_assoc, List.singleton_append] at hrest
        have hnot : ¬StandsAt (fun _ _ => True) text (lead ++ c :: rest) (byteLength lead) :=
          fun h => hstarts (List.isPrefixOf_iff_prefix.2 (standsAt_byteLength_iff.1 h).1)
        rw [Option.map_map]
        refine IsFirst.of_cons (fun m h => h.start_isBoundary) hnot ?_
        convert hrest using 3
        simp [Nat.add_assoc]

end StyleSense.Text
