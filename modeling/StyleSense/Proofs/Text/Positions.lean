/-
# Offsets and positions are adjoint

A position may lie past the end of its line, or past the last line. The offset
of a position is then still told by the order alone: it is the first one whose
position is not before it, or the end of the text if there is none. That holds
because a line starts no later than an offset exactly if it is not behind the
line of that offset, whether or not a column is in its line.
-/

import Mathlib.Order.Bounds.Defs
import StyleSense.Proofs.Text.Lines

namespace StyleSense.Text

namespace LineIndex

variable {lines : LineIndex} {offset : Nat}

theorem start_mono (hvalid : lines.Valid) {k m first second : Nat} (h : k ≤ m)
    (hfirst : lines.starts[k]? = some first) (hsecond : lines.starts[m]? = some second) :
    first ≤ second := by
  obtain ⟨hk, rfl⟩ := List.getElem?_eq_some_iff.1 hfirst
  obtain ⟨hm, rfl⟩ := List.getElem?_eq_some_iff.1 hsecond
  rcases Nat.lt_or_eq_of_le h with hlt | rfl
  · exact Nat.le_of_lt (List.pairwise_iff_getElem.1 hvalid.increasing k m hk hm hlt)
  · exact Nat.le_refl _

theorem lineOf_lt_length (lines : LineIndex) (offset : Nat) :
    lines.lineOf offset < lines.starts.length :=
  (List.getElem?_eq_some_iff.1 (lines.getElem?_lineOf offset)).1

/-- A line starts no later than an offset exactly if it is not behind the line of
that offset. -/
theorem start_le_iff (hvalid : lines.Valid) {k start : Nat}
    (hstart : lines.starts[k]? = some start) : start ≤ offset ↔ k ≤ lines.lineOf offset := by
  constructor
  · intro hle
    apply Nat.le_of_not_lt
    intro hbehind
    have hlength := (List.getElem?_eq_some_iff.1 hstart).1
    have hnext := List.getElem?_eq_getElem (Nat.lt_of_le_of_lt hbehind hlength)
    have hlate := lt_of_getElem?_succ_lineOf hnext
    have hmono := start_mono hvalid hbehind hnext hstart
    omega
  · intro hle
    exact Nat.le_trans (start_mono hvalid hle hstart (lines.getElem?_lineOf offset))
      (lines.startOf_le offset)

/-- Where the line after the line number `k` starts; behind the last line, the
end of the text. -/
def endOf (lines : LineIndex) (k : Nat) : Nat :=
  (lines.starts[k + 1]?).getD lines.size

theorem endOf_le_size (hvalid : lines.Valid) (k : Nat) : lines.endOf k ≤ lines.size := by
  unfold endOf
  cases hnext : lines.starts[k + 1]? with
  | none => exact Nat.le_refl _
  | some next => exact hvalid.bounded next (List.mem_of_getElem? hnext)

theorem endOf_le_iff (hvalid : lines.Valid) (h : offset < lines.size) (k : Nat) :
    lines.endOf k ≤ offset ↔ k < lines.lineOf offset := by
  unfold endOf
  cases hnext : lines.starts[k + 1]? with
  | none =>
      have hlast := List.getElem?_eq_none_iff.1 hnext
      have hline := lines.lineOf_lt_length offset
      simp only [Option.getD_none]
      omega
  | some next => exact start_le_iff hvalid hnext

theorem offsetAt_of_some {p : Position} {start : Nat}
    (h : lines.starts[p.line.toNat]? = some start) :
    lines.offsetAt p = min (start + p.character.toNat) (lines.endOf p.line.toNat) := by
  simp only [offsetAt, h]
  rfl

theorem offsetAt_of_none {p : Position} (h : lines.starts[p.line.toNat]? = none) :
    lines.offsetAt p = lines.size := by
  simp only [offsetAt, h]

theorem offsetAt_le_size (hvalid : lines.Valid) (p : Position) :
    lines.offsetAt p ≤ lines.size := by
  cases hstart : lines.starts[p.line.toNat]? with
  | none => exact Nat.le_of_eq (offsetAt_of_none hstart)
  | some start =>
      rw [offsetAt_of_some hstart]
      exact Nat.le_trans (Nat.min_le_right _ _) (endOf_le_size hvalid _)

/-- The offset of a position is not behind an offset of the text exactly if the
position is not behind the position of that offset. -/
theorem offsetAt_le_iff (hvalid : lines.Valid) (hsize : lines.size < UInt32.size)
    (h : offset < lines.size) (p : Position) :
    lines.offsetAt p ≤ offset ↔ p.notAfter (lines.positionAt offset) = true := by
  obtain ⟨hline, hcharacter⟩ := toNat_positionAt hvalid hsize (Nat.le_of_lt h)
  rw [Position.notAfter_iff, hline, hcharacter]
  cases hstart : lines.starts[p.line.toNat]? with
  | none =>
      -- Past the last line, the end of the text answers, and no offset comes so late.
      have hlast := List.getElem?_eq_none_iff.1 hstart
      have hcount := lines.lineOf_lt_length offset
      rw [offsetAt_of_none hstart]
      omega
  | some start =>
      have hend := endOf_le_iff hvalid h p.line.toNat
      have hfrom : start ≤ offset ↔ p.line.toNat ≤ lines.lineOf offset :=
        start_le_iff hvalid hstart
      have hmin : min (start + p.character.toNat) (lines.endOf p.line.toNat) ≤ offset ↔
          start + p.character.toNat ≤ offset ∨ p.line.toNat < lines.lineOf offset := by
        rw [← hend]
        omega
      rw [offsetAt_of_some hstart, hmin]
      rcases Nat.lt_trichotomy p.line.toNat (lines.lineOf offset) with hlt | heq | hgt
      · simp only [hlt, or_true, true_or]
      · have hsame : start = lines.startOf offset := by
          rw [heq, getElem?_lineOf, Option.some.injEq] at hstart
          exact hstart.symm
        have hle := lines.startOf_le offset
        omega
      · omega

/-- The offset of a position is the first one whose position is not before it,
or the end of the text. -/
theorem isLeast_offsetAt (hvalid : lines.Valid) (hsize : lines.size < UInt32.size)
    (p : Position) :
    IsLeast {offset | offset = lines.size ∨
      offset < lines.size ∧ p.notAfter (lines.positionAt offset) = true} (lines.offsetAt p) := by
  constructor
  · rcases Nat.lt_or_eq_of_le (offsetAt_le_size hvalid p) with hlt | heq
    · exact .inr ⟨hlt, (offsetAt_le_iff hvalid hsize hlt p).1 (Nat.le_refl _)⟩
    · exact .inl heq
  · rintro offset (rfl | ⟨hlt, hafter⟩)
    · exact offsetAt_le_size hvalid p
    · exact (offsetAt_le_iff hvalid hsize hlt p).2 hafter

/-- The main statement, for a text of fewer than `UInt32.size` code units. An
offset leads to a position and back to itself, or to the end of the text.
Positions are strictly in the order of offsets. The offset of a position is not
behind an offset exactly if the position is not behind that offset's position;
it is never past the text, and the first offset not before the position. -/
theorem offsetAt_adjoint {text : List Char} (h : unitLength text < UInt32.size) :
    (∀ offset, (ofText text).offsetAt ((ofText text).positionAt offset) =
      min offset (unitLength text)) ∧
    (∀ a b, a < b → b ≤ unitLength text →
      ((ofText text).positionAt a).notAfter ((ofText text).positionAt b) = true ∧
      ((ofText text).positionAt b).notAfter ((ofText text).positionAt a) = false) ∧
    (∀ p offset, offset < unitLength text →
      ((ofText text).offsetAt p ≤ offset ↔
        p.notAfter ((ofText text).positionAt offset) = true)) ∧
    (∀ p, (ofText text).offsetAt p ≤ unitLength text) ∧
    (∀ p, IsLeast {offset | offset = unitLength text ∨ offset < unitLength text ∧
      p.notAfter ((ofText text).positionAt offset) = true} ((ofText text).offsetAt p)) := by
  have hvalid := valid_ofText text
  refine ⟨offsetAt_positionAt hvalid h, ?_, ?_, offsetAt_le_size hvalid,
    isLeast_offsetAt hvalid h⟩
  · intro a b hlt hle
    exact ⟨positionAt_mono hvalid h (Nat.le_of_lt hlt), positionAt_strictMono hvalid h hlt hle⟩
  · intro p offset hlt
    exact offsetAt_le_iff hvalid h hlt p

/-- A column past its line is the start of the next line, and no offset before
that has a position as late. The last character is a surrogate pair. -/
theorem offsetAt_adjoint_pastLine :
    let text := ['a', '\n', 'b', Char.ofNat 0x1F600]
    unitLength text < UInt32.size ∧ (ofText text).offsetAt ⟨0, 9⟩ = 2 ∧
      Position.notAfter ⟨0, 9⟩ ((ofText text).positionAt 1) = false ∧
      (ofText text).offsetAt ((ofText text).positionAt 4) = 4 ∧
      ((ofText text).positionAt 4).notAfter ((ofText text).positionAt 3) = false ∧
      (ofText text).offsetAt ⟨7, 0⟩ ≤ 5 := by
  intro text
  have hsize : unitLength text < UInt32.size := by decide
  obtain ⟨hback, hstrict, hadjoint, hbound, -⟩ := offsetAt_adjoint hsize
  have hoffset : (ofText text).offsetAt ⟨0, 9⟩ = 2 := by decide
  have hlate := hadjoint ⟨0, 9⟩ 1 (by decide)
  refine ⟨hsize, hoffset, ?_, hback 4, (hstrict 3 4 (by decide) (by decide)).2, hbound _⟩
  rw [Bool.eq_false_iff, ne_eq, ← hlate, hoffset]
  decide

end LineIndex

end StyleSense.Text
