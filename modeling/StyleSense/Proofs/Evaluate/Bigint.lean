/-
# Big integer literals

A literal of a big integer may be spelled in many ways: in one of four radices, with
letters of either case, behind zeros, and with underscores between its digits. All
spellings of a number are read as that number, which may have any size.
-/

import Mathlib.Data.List.DropRight
import StyleSense.Evaluate
import StyleSense.Proofs.Text.Numeral
import StyleSense.Proofs.Value.Number

namespace StyleSense

open StyleSense.Text

/-- How a literal of a big integer is spelled. -/
structure Spelling where
  /-- What stands before the digits. -/
  mark : List Char
  radix : Nat
  /-- Digits of radix ten have no mark, all others a zero and a letter of either case. -/
  announced : mark = [] ∧ radix = 10 ∨ ∃ letter, mark = ['0', letter] ∧ (letter, radix) ∈ radixMarks
  /-- How many zeros stand before the first digit that counts. -/
  zeros : Nat
  /-- Whether the digit at a place is in upper case. -/
  upper : Nat → Bool
  /-- Whether an underscore follows the digit at a place, unless it is the last one. -/
  apart : Nat → Bool

namespace Spelling

/-- Digits in the case of their places. -/
def cased (upper : Nat → Bool) (digits : List Char) : List Char :=
  digits.mapIdx fun i d => if upper i then d.toUpper else d

/-- Digits with underscores between them. -/
def grouped (apart : Nat → Bool) : List Char → List Char
  | [] => []
  | [d] => [d]
  | d :: ds =>
      let rest := grouped (fun i => apart (i + 1)) ds
      if apart 0 then d :: '_' :: rest else d :: rest

/-- The digits of a number, without underscores. -/
def digits (s : Spelling) (n : Nat) : List Char :=
  cased s.upper (List.replicate s.zeros '0' ++ Nat.toDigits s.radix n)

/-- The literal of a number. -/
def write (s : Spelling) (n : Nat) : String :=
  String.ofList (s.mark ++ grouped s.apart (s.digits n) ++ ['n'])

end Spelling

variable {cs ds : List Char} {c : Char} {n radix value : Nat}

/-- Characters that may stand in a literal beside digits, or before digits that are
read. -/
def besideDigits : List Char :=
  ['n', '_', '+', '-']

theorem not_mem_besideDigits (hradix : radix ≤ 16) (h : IsDigitOf radix c value) :
    c ∉ besideDigits := by
  have hdigits : ∀ v < 16, Nat.digitChar v ∉ besideDigits ∧
      (Nat.digitChar v).toUpper ∉ besideDigits := by decide
  obtain ⟨hplain, hraised⟩ := hdigits value (Nat.lt_of_lt_of_le h.1 hradix)
  rcases h.2 with rfl | rfl
  · exact hplain
  · exact hraised

theorem not_mem_of_writes (hradix : radix ≤ 16) (h : Writes radix cs n)
    (hc : c ∈ besideDigits) : c ∉ cs := by
  intro hmem
  obtain ⟨value, hvalue⟩ := h.isDigitOf c hmem
  exact not_mem_besideDigits hradix hvalue hc

/-- Digits have no sign. -/
theorem signed?_of_writes (hradix : radix ≤ 16) (h : Writes radix cs n) :
    bigintOf?.signed? radix cs = some (n : Int) := by
  have hread := (readDigits?_eq_some_iff_writes hradix).2 h
  unfold bigintOf?.signed?
  split
  next rest => exact absurd List.mem_cons_self (not_mem_of_writes hradix h (c := '-') (by decide))
  next rest => exact absurd List.mem_cons_self (not_mem_of_writes hradix h (c := '+') (by decide))
  next =>
    rw [hread]
    rfl

/-- Decimal digits do not begin as a mark does. -/
theorem ne_marked_of_writes (h : Writes 10 ds n) (hc : digitValue? 10 c = none)
    (rest : List Char) : ds ≠ '0' :: c :: rest := by
  rintro rfl
  obtain ⟨value, hvalue⟩ := h.isDigitOf c (List.mem_cons_of_mem _ List.mem_cons_self)
  rw [(digitValue?_eq_some_iff (by decide)).2 hvalue] at hc
  cases hc

namespace Spelling

theorem filter_grouped (apart : Nat → Bool) (h : '_' ∉ ds) :
    (grouped apart ds).filter (· ≠ '_') = ds := by
  fun_induction grouped apart ds with
  | case1 => rfl
  | case2 apart d =>
      have hd := List.ne_of_not_mem_cons h
      exact List.filter_cons_of_pos (by simpa using Ne.symm hd)
  | case3 apart d ds _ rest _ ih =>
      obtain ⟨hd, hds⟩ := List.ne_and_not_mem_of_not_mem_cons h
      rw [List.filter_cons_of_pos (by simpa using Ne.symm hd), List.filter_cons_of_neg (by decide),
        ih hds]
  | case4 apart d ds _ rest _ ih =>
      obtain ⟨hd, hds⟩ := List.ne_and_not_mem_of_not_mem_cons h
      rw [List.filter_cons_of_pos (by simpa using Ne.symm hd), ih hds]

theorem mem_of_mem_grouped {apart : Nat → Bool} (h : c ∈ grouped apart ds) :
    c = '_' ∨ c ∈ ds := by
  fun_induction grouped apart ds with
  | case1 => cases h
  | case2 apart d => exact .inr h
  | case3 apart d ds _ rest _ ih =>
      simp only [List.mem_cons] at h ⊢
      tauto
  | case4 apart d ds _ rest _ ih =>
      simp only [List.mem_cons] at h ⊢
      tauto

variable (s : Spelling)

theorem radix_cases : s.radix ∈ [2, 8, 10, 16] := by
  rcases s.announced with ⟨-, h⟩ | ⟨letter, -, h⟩
  · rw [h]
    decide
  · have hall : ∀ entry ∈ radixMarks, entry.2 ∈ [2, 8, 10, 16] := by decide
    exact hall _ h

theorem one_lt_radix : 1 < s.radix := by
  have hall : ∀ radix ∈ [2, 8, 10, 16], 1 < radix := by decide
  exact hall _ s.radix_cases

theorem radix_le_sixteen : s.radix ≤ 16 := by
  have hall : ∀ radix ∈ [2, 8, 10, 16], radix ≤ 16 := by decide
  exact hall _ s.radix_cases

/-- No mark has a character that is left out when a literal is read. -/
theorem mark_kept : ∀ c ∈ s.mark, c ≠ '_' ∧ c ≠ 'n' := by
  rcases s.announced with ⟨h, -⟩ | ⟨letter, h, hletter⟩
  · rw [h]
    exact List.forall_mem_nil _
  · have hall : ∀ entry ∈ radixMarks, entry.1 ≠ '_' ∧ entry.1 ≠ 'n' := by decide
    rw [h]
    exact List.forall_mem_cons.2 ⟨by decide, List.forall_mem_singleton.2 (hall _ hletter)⟩

theorem writes_digits (n : Nat) : Writes s.radix (s.digits n) n := by
  refine ((writes_toDigits s.one_lt_radix n).zeros_append s.zeros).mapIdx ?_
  intro i c value h
  split
  · exact h.toUpper s.radix_le_sixteen
  · exact h

/-- Without its last letter and its underscores, a literal is its mark and digits. -/
theorem filter_write (n : Nat) :
    (((s.write n).toList.reverse.dropWhile (· = 'n')).reverse.filter (· ≠ '_')) =
      s.mark ++ s.digits n := by
  have hdigits := s.writes_digits n
  have hn : 'n' ∉ s.mark ++ grouped s.apart (s.digits n) := by
    rw [List.mem_append]
    rintro (hmem | hmem)
    · exact (s.mark_kept _ hmem).2 rfl
    · rcases mem_of_mem_grouped hmem with h | h
      · cases h
      · exact not_mem_of_writes s.radix_le_sixteen hdigits (by decide) h
  have htrim : (s.write n).toList.rdropWhile (· = 'n') =
      s.mark ++ grouped s.apart (s.digits n) := by
    rw [write, String.toList_ofList, List.rdropWhile_concat_pos _ _ _ (by decide),
      List.rdropWhile_eq_self_iff]
    intro hne hlast
    exact hn (of_decide_eq_true hlast ▸ List.getLast_mem hne)
  have hmark : s.mark.filter (· ≠ '_') = s.mark :=
    List.filter_eq_self.2 fun c hc => decide_eq_true (s.mark_kept c hc).1
  change ((s.write n).toList.rdropWhile (· = 'n')).filter (· ≠ '_') = _
  rw [htrim, List.filter_append, hmark,
    filter_grouped _ (not_mem_of_writes s.radix_le_sixteen hdigits (by decide))]

/-- Every literal of a number is read as that number. -/
theorem bigintOf?_write (n : Nat) : bigintOf? (s.write n) = some (n : Int) := by
  have hdigits := (s.writes_digits n).lowerAscii s.radix_le_sixteen
  have hsigned := signed?_of_writes s.radix_le_sixteen hdigits
  unfold bigintOf?
  simp only [s.filter_write]
  have happend : lowerAscii (s.mark ++ s.digits n) = lowerAscii s.mark ++ lowerAscii (s.digits n) :=
    List.map_append
  rw [happend]
  generalize lowerAscii (s.digits n) = ds at hdigits hsigned
  rcases s.announced with ⟨hmark, hradix⟩ | ⟨letter, hmark, hletter⟩
  · -- Without a mark, the second character is a decimal digit or is not there.
    rw [hradix] at hdigits hsigned
    have hnil : lowerAscii s.mark = [] := by rw [hmark, lowerAscii, List.map_nil]
    rw [hnil, List.nil_append]
    split
    next rest => exact absurd rfl (ne_marked_of_writes hdigits (c := 'x') rfl rest)
    next rest => exact absurd rfl (ne_marked_of_writes hdigits (c := 'o') rfl rest)
    next rest => exact absurd rfl (ne_marked_of_writes hdigits (c := 'b') rfl rest)
    next => exact hsigned
  · rw [hmark]
    simp only [radixMarks, List.mem_cons, Prod.mk.injEq, List.not_mem_nil, or_false] at hletter
    rcases hletter with ⟨rfl, h⟩ | ⟨rfl, h⟩ | ⟨rfl, h⟩ | ⟨rfl, h⟩ | ⟨rfl, h⟩ | ⟨rfl, h⟩ <;>
      exact h ▸ hsigned

/-- Two hundred and fifty-five in capitals behind a zero. -/
example : Spelling.write ⟨['0', 'X'], 16, .inr ⟨'X', rfl, by decide⟩, 1, fun _ => true, (· = 1)⟩
    255 = "0X0F_Fn" := by decide

end Spelling

end StyleSense
