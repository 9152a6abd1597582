/-
# The digits offered for a color

The swatch that is edited is looked up by halving among those last shown. That
is right because they are in the order of their starts: if swatches start at
the place, one of them is found, though not any particular one.

An opaque color is written with six digits, unless the swatch that was found is
partly transparent. Then the digits of its opacity are `ff`.
-/

import Mathlib
import StyleSense.Color.Presentation
import StyleSense.Proofs.Text.Lines

namespace StyleSense

open StyleSense.Text

namespace Color

theorem toByte_lt (x : Float) : toByte x < 256 := by
  unfold toByte
  split
  · exact Nat.lt_succ_of_le (Nat.min_le_right _ 255)
  · exact Nat.zero_lt_succ 255

theorem toByte_one : toByte 1 = 255 := by
  decide +kernel

theorem length_hexByte {n : Nat} (h : n < 256) : (hexByte n).length = 2 := by
  revert n
  decide +kernel

theorem length_hexOpaque (c : Color) : c.hexOpaque.length = 7 := by
  simp only [hexOpaque, String.length_append, length_hexByte (toByte_lt _)]
  rfl

theorem length_hexFull (c : Color) : c.hexFull.length = 9 := by
  rw [hexFull, String.length_append, length_hexOpaque, length_hexByte (toByte_lt _)]

theorem beq_one_iff (x : Float) : (x == 1) = true ↔ x = 1 := by
  have hone : (1 : Float) ≠ 0 ∧ (1 : Float) ≠ -0 ∧ (1 : Float) ≠ Float.nan := by decide +kernel
  rw [Float.beq_iff_ne_nan_and_eq]
  constructor
  · rintro ⟨-, -, heq | ⟨-, hzero⟩ | ⟨-, hzero⟩⟩
    · exact heq
    · exact absurd hzero hone.2.1
    · exact absurd hzero hone.1
  · rintro rfl
    exact ⟨hone.2.2, hone.2.2, .inl rfl⟩

theorem hexFull_of_opaque {c : Color} (h : c.alpha = 1) : c.hexFull = c.hexOpaque ++ "ff" := by
  rw [hexFull, h, toByte_one]
  rfl

end Color

namespace Swatch

variable {swatches : List Swatch} {start : Position} {base size : Nat}

/-- What is in question lies within the list. All that comes after it starts
after the position. The first of it does not, unless it is the first of all. -/
structure Narrowed (swatches : List Swatch) (start : Position) (base size : Nat) : Prop where
  pos : 0 < size
  within : base + size ≤ swatches.length
  first : base = 0 ∨ ∃ swatch, swatches[base]? = some swatch ∧
    swatch.range.start.notAfter start = true
  after : ∀ i swatch, swatches[i]? = some swatch → base + size ≤ i →
    swatch.range.start.notAfter start = false

/-- Starts come in order. -/
def Sorted (swatches : List Swatch) : Prop :=
  swatches.Pairwise fun a b => a.range.start.notAfter b.range.start = true

theorem Sorted.notAfter (h : Sorted swatches) {i j : Nat} {a b : Swatch} (hij : i ≤ j)
    (ha : swatches[i]? = some a) (hb : swatches[j]? = some b) :
    a.range.start.notAfter b.range.start = true := by
  obtain ⟨hi, rfl⟩ := List.getElem?_eq_some_iff.1 ha
  obtain ⟨hj, rfl⟩ := List.getElem?_eq_some_iff.1 hb
  rcases Nat.lt_or_eq_of_le hij with hlt | rfl
  · exact List.pairwise_iff_getElem.1 h i j hi hj hlt
  · exact Position.notAfter_refl _

/-- One comparison narrows what is in question. -/
theorem Narrowed.half (hsorted : Sorted swatches) (h : Narrowed swatches start base size)
    (hsize : ¬size ≤ 1) :
    Narrowed swatches start
      (if (swatches[base + size / 2]?).any fun swatch => swatch.range.start.notAfter start then
        base + size / 2 else base) (size - size / 2) := by
  have hwithin := h.within
  have hmid : base + size / 2 < swatches.length := by omega
  have hget := List.getElem?_eq_getElem hmid
  rw [hget, Option.any_some]
  split
  case isTrue hstarts =>
    refine ⟨by omega, by omega, .inr ⟨_, hget, hstarts⟩, fun i swatch hi hle => ?_⟩
    exact h.after i swatch hi (by omega)
  case isFalse hstarts =>
    refine ⟨by omega, by omega, h.first, fun i swatch hi hle => ?_⟩
    -- What does not start before the middle is no earlier than the middle.
    apply Bool.eq_false_of_not_eq_true
    intro hswatch
    exact hstarts (Position.notAfter_trans (hsorted.notAfter (by omega) hget hi) hswatch)

theorem Narrowed.halve (hsorted : Sorted swatches) (h : Narrowed swatches start base size) :
    Narrowed swatches start (halve swatches start base size) 1 := by
  fun_induction Swatch.halve swatches start base size with
  | case1 base size hsize =>
      have hone : size = 1 := Nat.le_antisymm hsize h.pos
      exact hone ▸ h
  | case2 base size hsize half starts ih => exact ih (h.half hsorted hsize)

/-- If swatches start at a position, one of them is found. -/
theorem lastAt?_spec (hsorted : Sorted swatches) (start : Position) :
    (∃ swatch ∈ swatches, swatch.range.start = start ∧ lastAt? swatches start = some swatch) ∨
      (∀ swatch ∈ swatches, swatch.range.start ≠ start) ∧ lastAt? swatches start = none := by
  rcases hfound : lastAt? swatches start with - | found
  · refine .inr ⟨fun swatch hmem hstart => ?_, rfl⟩
    obtain ⟨i, hi⟩ := List.getElem?_of_mem hmem
    obtain ⟨hlt, -⟩ := List.getElem?_eq_some_iff.1 hi
    have hall : Narrowed swatches start 0 swatches.length :=
      ⟨by omega, by omega, .inl rfl, fun j other hj hle => by
        rw [List.getElem?_eq_none (by omega)] at hj
        cases hj⟩
    have hlast := hall.halve hsorted
    set last := halve swatches start 0 swatches.length with hdef
    have hself : swatch.range.start.notAfter start = true :=
      hstart ▸ Position.notAfter_refl _
    have hle : i ≤ last := by
      by_contra hgt
      have hafter := hlast.after i swatch hi (by omega)
      rw [hself] at hafter
      cases hafter
    -- The one that is left lies between the swatch and the position.
    have hbetween : ∃ other, swatches[last]? = some other ∧
        other.range.start.notAfter start = true := by
      rcases hlast.first with hzero | hfirst
      · have hsame : last = i := by omega
        exact ⟨swatch, hsame ▸ hi, hself⟩
      · exact hfirst
    obtain ⟨other, hother, hnotAfter⟩ := hbetween
    have hexact : other.range.start = start :=
      Position.eq_of_notAfter hnotAfter (hstart ▸ hsorted.notAfter hle hi hother)
    rw [lastAt?, ← hdef, hother, Option.filter_some, if_pos (decide_eq_true hexact)] at hfound
    cases hfound
  · obtain ⟨hget, hstart⟩ := Option.filter_eq_some_iff.1 hfound
    exact .inl ⟨found, List.mem_of_getElem? hget, of_decide_eq_true hstart, rfl⟩

/-- Whether a swatch shows no opacity between none and all. -/
def isPlain (swatch : Swatch) : Bool :=
  swatch.color.alpha == 0 || swatch.color.alpha == 1

/-- Which digits are offered first, where the swatches that start at the place
are all alike. -/
theorem hex_presentations (hsorted : Sorted swatches) (range : Range) (color : Color) :
    ∃ hex rest, presentations swatches range color = hex :: rest ∧
      (color.alpha = 1 →
        (∀ swatch ∈ swatches, swatch.range.start = range.start → swatch.isPlain = true) →
        hex = color.hexOpaque) ∧
      (color.alpha = 1 → (∃ swatch ∈ swatches, swatch.range.start = range.start) →
        (∀ swatch ∈ swatches, swatch.range.start = range.start → swatch.isPlain = false) →
        hex = color.hexOpaque ++ "ff") ∧
      (color.alpha ≠ 1 → hex = color.hexFull) := by
  refine ⟨_, _, rfl, fun hopaque hplain => ?_, fun hopaque hsome hclear => ?_, fun hclear => ?_⟩
  · have hone : (color.alpha == 1) = true := (Color.beq_one_iff _).2 hopaque
    have hall : (lastAt? swatches range.start).all isPlain = true := by
      rcases lastAt?_spec hsorted range.start with ⟨swatch, hmem, hstart, hlast⟩ | ⟨-, hlast⟩
      · rw [hlast, Option.all_some]
        exact hplain swatch hmem hstart
      · rw [hlast]
        rfl
    exact if_pos (Bool.and_eq_true_iff.2 ⟨hone, hall⟩)
  · have hall : (lastAt? swatches range.start).all isPlain = false := by
      rcases lastAt?_spec hsorted range.start with ⟨swatch, hmem, hstart, hlast⟩ | ⟨hnone, -⟩
      · rw [hlast, Option.all_some]
        exact hclear swatch hmem hstart
      · obtain ⟨swatch, hmem, hstart⟩ := hsome
        exact absurd hstart (hnone swatch hmem)
    rw [← Color.hexFull_of_opaque hopaque]
    exact if_neg fun h => Bool.false_ne_true (hall.symm.trans (Bool.and_eq_true_iff.1 h).2)
  · exact if_neg fun h => hclear ((Color.beq_one_iff _).1 (Bool.and_eq_true_iff.1 h).1)

end Swatch

end StyleSense
