/-
# How number texts begin

Whatever number is written, its text is not empty, and its first character is ASCII:
a digit, a minus sign, or a letter where the number is infinite or none at all.
-/

import StyleSense.Decimal.Notation
import StyleSense.Proofs.Text.Cuts
import StyleSense.Proofs.Text.Numeral

namespace StyleSense.Text

/-- Texts that begin with a character of one byte. -/
def StartsAscii (cs : List Char) : Prop :=
  ∃ c rest, cs = c :: rest ∧ c.toNat < 128

variable {cs : List Char}

theorem StartsAscii.append (h : StartsAscii cs) (rest : List Char) : StartsAscii (cs ++ rest) := by
  obtain ⟨c, tail, rfl, hc⟩ := h
  exact ⟨c, tail ++ rest, rfl, hc⟩

theorem IsAscii.startsAscii (h : IsAscii cs) (hne : cs ≠ []) : StartsAscii cs := by
  cases cs with
  | nil => exact absurd rfl hne
  | cons c rest => exact ⟨c, rest, rfl, h c List.mem_cons_self⟩

end StyleSense.Text

namespace StyleSense.Decimal

open StyleSense.Text

variable {digits : List Char}

theorem isAscii_trimZeros_digitChars (n : Nat) : IsAscii (trimZeros (digitChars n)) := by
  intro c hc
  have hmem := (List.dropWhile_sublist _).subset (List.mem_reverse.1 hc)
  have hdigit := isDigit_iff.1 (isDigit_of_mem_toDigits (List.mem_reverse.1 hmem))
  omega

theorem startsAscii_positional (layout : Layout) (hdigits : IsAscii digits) (point : Int) :
    StartsAscii (positional layout digits point).toList := by
  unfold positional
  split
  next => exact ⟨'0', _, String.toList_ofList, by decide⟩
  next hpoint =>
    dsimp only
    split
    next hfew =>
      -- Where no digit is left, the zeros that fill up are the first characters.
      rw [String.toList_append, String.toList_ofList]
      have hzeros : IsAscii (List.replicate (point.toNat - digits.length) '0') := by
        intro c hc
        rw [List.eq_of_mem_replicate hc]
        decide
      refine ((isAscii_append.2 ⟨hdigits, hzeros⟩).startsAscii ?_).append _
      intro hnil
      have hlength := congrArg List.length hnil
      rw [List.length_append, List.length_replicate, List.length_nil] at hlength
      omega
    next hmany =>
      rw [String.toList_ofList]
      have htaken : IsAscii (digits.take point.toNat) :=
        fun c hc => hdigits c (List.mem_of_mem_take hc)
      refine (htaken.startsAscii ?_).append _
      intro hnil
      have hlength := congrArg List.length hnil
      rw [List.length_take, List.length_nil] at hlength
      omega

theorem startsAscii_scientific (layout : Layout) (hdigits : IsAscii digits) (point : Int) :
    StartsAscii (scientific layout digits point).toList := by
  unfold scientific
  simp only [String.toList_append, List.append_assoc]
  apply StartsAscii.append
  match digits with
  | [] => exact ⟨'0', [], rfl, by decide⟩
  | [d] => exact ⟨d, [], String.toList_ofList, hdigits d List.mem_cons_self⟩
  | d :: e :: rest =>
      exact ⟨d, '.' :: e :: rest, String.toList_ofList, hdigits d List.mem_cons_self⟩

theorem startsAscii_write (layout : Layout) (d : Digits) :
    StartsAscii (layout.write d).toList := by
  have hdigits := isAscii_trimZeros_digitChars d.digits
  unfold Layout.write
  dsimp only
  split
  · exact startsAscii_positional layout hdigits d.point
  · exact startsAscii_scientific layout hdigits d.point

theorem startsAscii_formatNumber (x : Float) : StartsAscii (formatNumber x).toList := by
  unfold formatNumber
  split
  next => exact ⟨'N', ['a', 'N'], rfl, by decide⟩
  next =>
    split
    · exact ⟨'-', "Infinity".toList, rfl, by decide⟩
    · exact ⟨'I', "nfinity".toList, rfl, by decide⟩
  next =>
    split
    · exact ⟨'0', [], rfl, by decide⟩
    · dsimp only
      split
      · rw [String.toList_append]
        exact ⟨'-', _, rfl, by decide⟩
      · exact startsAscii_write scriptLayout _

end StyleSense.Decimal
