/-
# Numerals

Digits of a radix write a number, the last digit counting least. That number is
what is read, and nothing is read without a digit. Where a bound is given, a plus
sign may stand in front.

What is read as a number in radix ten is its canonical numeral, without a sign
and without zeros before other digits, or differs from it in these two: any
number of zeros may stand before it, and a plus sign before those where a bound
is given.
-/

import Mathlib.Data.List.Basic
import Mathlib.Data.List.Induction
import Mathlib.Tactic.SplitIfs
import StyleSense.Text.Measure

namespace StyleSense.Text

/-- A character is the digit of this value. Letters are of either case. -/
def IsDigitOf (radix : Nat) (c : Char) (value : Nat) : Prop :=
  value < radix ∧ (c = Nat.digitChar value ∨ c = (Nat.digitChar value).toUpper)

/-- Digits of a radix, at least one, with the number that they write. -/
inductive Writes (radix : Nat) : List Char → Nat → Prop
  | digit {c : Char} {value : Nat} (h : IsDigitOf radix c value) : Writes radix [c] value
  | append {cs : List Char} {n : Nat} {c : Char} {value : Nat} (hcs : Writes radix cs n)
      (h : IsDigitOf radix c value) : Writes radix (cs ++ [c]) (n * radix + value)

theorem le_iff_toNat_le {a b : Char} : a ≤ b ↔ a.toNat ≤ b.toNat :=
  UInt32.le_iff_toNat_le

theorem digitValue?_eq_some_iff {radix value : Nat} {c : Char} (hradix : radix ≤ 16) :
    digitValue? radix c = some value ↔ IsDigitOf radix c value := by
  have hcodes : ∀ v < 16, (Nat.digitChar v).toNat = (if v < 10 then v + 48 else v + 87) ∧
      (Nat.digitChar v).toUpper.toNat = (if v < 10 then v + 48 else v + 55) := by decide
  simp only [digitValue?, isDigit, IsDigitOf, Bool.and_eq_true, decide_eq_true_eq,
    le_iff_toNat_le, Char.reduceToNat, ← Char.toNat_inj]
  by_cases hvalue : value < 16
  · rw [(hcodes value hvalue).1, (hcodes value hvalue).2]
    split_ifs <;> simp <;> omega
  · split_ifs <;> simp <;> omega

theorem IsDigitOf.toUpper {radix value : Nat} {c : Char} (hradix : radix ≤ 16)
    (h : IsDigitOf radix c value) : IsDigitOf radix c.toUpper value := by
  have hdigits : ∀ v < 16, (Nat.digitChar v).toUpper.toUpper = (Nat.digitChar v).toUpper := by
    decide
  obtain ⟨hvalue, rfl | rfl⟩ := h
  · exact ⟨hvalue, .inr rfl⟩
  · exact ⟨hvalue, .inr (hdigits value (by omega))⟩

theorem IsDigitOf.toLower {radix value : Nat} {c : Char} (hradix : radix ≤ 16)
    (h : IsDigitOf radix c value) : IsDigitOf radix c.toLower value := by
  have hdigits : ∀ v < 16, (Nat.digitChar v).toLower = Nat.digitChar v ∧
      (Nat.digitChar v).toUpper.toLower = Nat.digitChar v := by decide
  obtain ⟨hplain, hraised⟩ := hdigits value (Nat.lt_of_lt_of_le h.1 hradix)
  obtain ⟨hvalue, rfl | rfl⟩ := h
  · exact ⟨hvalue, .inl hplain⟩
  · exact ⟨hvalue, .inl hraised⟩

theorem isDigit_iff {c : Char} : isDigit c = true ↔ 48 ≤ c.toNat ∧ c.toNat ≤ 57 := by
  simp only [isDigit, Bool.and_eq_true, decide_eq_true_eq]
  exact Iff.rfl

/-- In radix ten only decimal digits have a value. -/
theorem digitValue?_ten (c : Char) :
    digitValue? 10 c = if isDigit c then some (c.toNat - 48) else none := by
  unfold digitValue?
  split
  next hdigit =>
    have hbounds := isDigit_iff.1 hdigit
    exact if_pos (by omega)
  next =>
    split
    next hlower =>
      have hbound : 97 ≤ c.toNat := of_decide_eq_true (Bool.and_eq_true_iff.1 hlower).1
      exact if_neg (by omega)
    next =>
      split
      next hupper =>
        have hbound : 65 ≤ c.toNat := of_decide_eq_true (Bool.and_eq_true_iff.1 hupper).1
        exact if_neg (by omega)
      next => rfl

theorem digitChar_sub {c : Char} (h : isDigit c = true) : Nat.digitChar (c.toNat - 48) = c := by
  have hbounds := isDigit_iff.1 h
  apply Char.toNat_inj.1
  rw [Nat.toNat_digitChar_of_lt_ten (by omega)]
  omega

theorem isDigit_of_mem_toDigits {n : Nat} {c : Char} (h : c ∈ Nat.toDigits 10 n) :
    isDigit c = true := by
  have hdigit := Nat.isDigit_of_mem_toDigits (by decide) (by decide) h
  simp only [Char.isDigit, Bool.and_eq_true, decide_eq_true_eq] at hdigit
  exact isDigit_iff.2 hdigit

theorem Writes.ne_nil {radix n : Nat} {cs : List Char} (h : Writes radix cs n) : cs ≠ [] := by
  cases h with
  | digit => exact List.cons_ne_nil _ _
  | append => exact List.concat_ne_nil _ _

theorem readDigits?_singleton (radix : Nat) (c : Char) :
    readDigits? radix [c] = digitValue? radix c := by
  simp [readDigits?]

theorem readDigits?_concat (radix : Nat) {cs : List Char} (hcs : cs ≠ []) (c : Char) :
    readDigits? radix (cs ++ [c]) =
      (readDigits? radix cs).bind fun n => (digitValue? radix c).map (n * radix + ·) := by
  cases cs with
  | nil => exact absurd rfl hcs
  | cons d cs =>
      rw [List.cons_append, readDigits?, readDigits?, ← List.cons_append, List.foldl_concat]

/-- What is read of digits is the number that they write. -/
theorem readDigits?_eq_some_iff_writes {radix n : Nat} {cs : List Char} (hradix : radix ≤ 16) :
    readDigits? radix cs = some n ↔ Writes radix cs n := by
  constructor
  · intro hread
    induction cs using List.reverseRecOn generalizing n with
    | nil => cases hread
    | append_singleton cs c ih =>
        by_cases hcs : cs = []
        · subst hcs
          rw [List.nil_append, readDigits?_singleton, digitValue?_eq_some_iff hradix] at hread
          exact .digit hread
        · rw [readDigits?_concat radix hcs] at hread
          obtain ⟨m, hm, hread⟩ := Option.bind_eq_some_iff.1 hread
          obtain ⟨value, hvalue, rfl⟩ := Option.map_eq_some_iff.1 hread
          exact .append (ih hm) ((digitValue?_eq_some_iff hradix).1 hvalue)
  · intro hwrites
    induction hwrites with
    | digit h => rw [readDigits?_singleton, (digitValue?_eq_some_iff hradix).2 h]
    | append hcs h ih =>
        rw [readDigits?_concat radix hcs.ne_nil, ih, (digitValue?_eq_some_iff hradix).2 h]
        rfl

/-- Whatever number a run of digits writes, its characters are digits. -/
theorem Writes.isDigitOf {radix n : Nat} {cs : List Char} (h : Writes radix cs n) :
    ∀ c ∈ cs, ∃ value, IsDigitOf radix c value := by
  induction h with
  | digit h => exact List.forall_mem_singleton.2 ⟨_, h⟩
  | append _ h ih => exact List.forall_mem_append.2 ⟨ih, List.forall_mem_singleton.2 ⟨_, h⟩⟩

/-- Every number is written by its canonical numeral. -/
theorem writes_toDigits {radix : Nat} (hradix : 1 < radix) (n : Nat) :
    Writes radix (Nat.toDigits radix n) n := by
  induction n using Nat.strongRecOn with
  | ind n ih =>
      by_cases hn : n < radix
      · rw [Nat.toDigits_of_lt_base hn]
        exact .digit ⟨hn, .inl rfl⟩
      · have hle := Nat.le_of_not_lt hn
        have hquotient := ih (n / radix) (Nat.div_lt_self (by omega) hradix)
        have hlast : IsDigitOf radix (Nat.digitChar (n % radix)) (n % radix) :=
          ⟨Nat.mod_lt n (by omega), .inl rfl⟩
        have happend := hquotient.append hlast
        rwa [← Nat.toDigits_of_base_le hradix hle, Nat.div_add_mod'] at happend

/-- A zero before other digits counts for nothing. -/
theorem Writes.cons_zero {radix n : Nat} {cs : List Char} (h : Writes radix cs n) :
    Writes radix ('0' :: cs) n := by
  induction h with
  | digit h =>
      have hzero : IsDigitOf radix '0' 0 := ⟨by have := h.1; omega, .inl rfl⟩
      have happend := (Writes.digit hzero).append h
      rwa [Nat.zero_mul, Nat.zero_add] at happend
  | append _ h ih => exact ih.append h

theorem Writes.zeros_append {radix n : Nat} {cs : List Char} (h : Writes radix cs n)
    (zeros : Nat) : Writes radix (List.replicate zeros '0' ++ cs) n := by
  induction zeros with
  | zero => exact h
  | succ zeros ih => exact ih.cons_zero

/-- Another spelling of each digit writes the same number. -/
theorem Writes.mapIdx {radix n : Nat} {cs : List Char} {f : Nat → Char → Char}
    (hf : ∀ i c value, IsDigitOf radix c value → IsDigitOf radix (f i c) value)
    (h : Writes radix cs n) : Writes radix (cs.mapIdx f) n := by
  induction h with
  | digit h => exact .digit (hf 0 _ _ h)
  | append _ h ih =>
      rw [List.mapIdx_concat]
      exact ih.append (hf _ _ _ h)

theorem Writes.lowerAscii {radix n : Nat} {cs : List Char} (hradix : radix ≤ 16)
    (h : Writes radix cs n) : Writes radix (lowerAscii cs) n := by
  have hlower := h.mapIdx (f := fun _ c => c.toLower) fun _ _ _ h => h.toLower hradix
  have hmap : cs.mapIdx (fun _ c => c.toLower) = Text.lowerAscii cs :=
    List.ext_getElem (by simp [Text.lowerAscii]) (by simp [Text.lowerAscii])
  rwa [hmap] at hlower

/-- A plus sign is no digit, of any radix. -/
theorem readDigits?_plus (radix : Nat) (cs : List Char) : readDigits? radix ('+' :: cs) = none := by
  have hplus : digitValue? radix '+' = none := if_neg (Nat.lt_irrefl radix)
  rw [readDigits?, List.foldl_cons, Option.bind_some, hplus, Option.map_none]
  exact List.foldl_fixed' (fun _ => rfl) cs

/-- What is read below a bound is what is read without one, perhaps behind a plus
sign. -/
theorem readBounded?_eq_some_iff_readDigits? {radix limit n : Nat} {cs : List Char} :
    readBounded? radix limit cs = some n ↔
      n < limit ∧ ∃ sign ∈ [[], ['+']], ∃ ds, cs = sign ++ ds ∧ readDigits? radix ds = some n := by
  simp only [List.mem_pair, exists_eq_or_imp, exists_eq_left, List.nil_append, exists_eq_left']
  unfold readBounded?
  split
  next ds =>
    rw [Option.filter_eq_some_iff, decide_eq_true_eq, and_comm, readDigits?_plus]
    simp
  next hplus =>
    rw [Option.filter_eq_some_iff, decide_eq_true_eq, and_comm, or_iff_left]
    rintro ⟨ds, rfl, -⟩
    exact hplus ds rfl

/-- Adding the digits of a run, one after the other, to a number. -/
theorem foldl_digitValue? (cs : List Char) (n : Nat) :
    cs.foldl (fun sum d => sum.bind fun n => (digitValue? 10 d).map (n * 10 + ·)) (some n) =
      if cs.all isDigit then some (Nat.ofDigitChars 10 cs n) else none := by
  induction cs generalizing n with
  | nil => simp
  | cons c cs ih =>
      rw [List.foldl_cons, Option.bind_some, digitValue?_ten, List.all_cons]
      by_cases hdigit : isDigit c = true
      · rw [if_pos hdigit, Option.map_some, ih, hdigit, Bool.true_and, Nat.ofDigitChars_cons,
          Nat.mul_comm n 10]
        rfl
      · rw [if_neg hdigit, Option.map_none, List.foldl_fixed' fun _ => rfl,
          if_neg fun hall => hdigit (Bool.and_eq_true_iff.1 hall).1]

/-- A run of digits is read as the number that it writes. -/
theorem readDigits?_ten_iff {cs : List Char} {n : Nat} :
    readDigits? 10 cs = some n ↔
      cs ≠ [] ∧ (∀ c ∈ cs, isDigit c = true) ∧ Nat.ofDigitChars 10 cs 0 = n := by
  cases cs with
  | nil => simp [readDigits?]
  | cons c cs =>
      rw [readDigits?, foldl_digitValue?]
      simp

/-- The digits behind those of a positive number make a longer numeral. -/
theorem toDigits_append {n : Nat} (hn : 0 < n) {cs : List Char}
    (h : ∀ c ∈ cs, isDigit c = true) :
    Nat.toDigits 10 n ++ cs = Nat.toDigits 10 (Nat.ofDigitChars 10 cs n) := by
  induction cs generalizing n with
  | nil => simp
  | cons c cs ih =>
      have ⟨hc, hcs⟩ := List.forall_mem_cons.1 h
      have hbounds := isDigit_iff.1 hc
      have hlast : c.toNat - 48 < 10 := by omega
      calc Nat.toDigits 10 n ++ c :: cs
          = Nat.toDigits 10 n ++ Nat.toDigits 10 (c.toNat - 48) ++ cs := by
            rw [Nat.toDigits_of_lt_base hlast, digitChar_sub hc, List.append_cons]
        _ = Nat.toDigits 10 (10 * n + (c.toNat - 48)) ++ cs := by
            rw [Nat.toDigits_append_toDigits (by decide) hn hlast]
        _ = Nat.toDigits 10 (Nat.ofDigitChars 10 cs (10 * n + (c.toNat - 48))) := by
            exact ih (by omega) hcs
        _ = Nat.toDigits 10 (Nat.ofDigitChars 10 (c :: cs) n) := by
            rw [Nat.ofDigitChars_cons]
            rfl

/-- A run of digits is a numeral behind zeros. -/
theorem exists_zeros {cs : List Char} (hne : cs ≠ []) (h : ∀ c ∈ cs, isDigit c = true) :
    ∃ zeros, cs = List.replicate zeros '0' ++ Nat.toDigits 10 (Nat.ofDigitChars 10 cs 0) := by
  induction cs with
  | nil => exact absurd rfl hne
  | cons c cs ih =>
      have ⟨hc, hcs⟩ := List.forall_mem_cons.1 h
      have hbounds := isDigit_iff.1 hc
      have hfirst : c.toNat - 48 < 10 := by omega
      by_cases hzero : c = '0'
      · subst hzero
        cases cs with
        | nil => exact ⟨0, rfl⟩
        | cons d cs =>
            obtain ⟨zeros, hzeros⟩ := ih (List.cons_ne_nil d cs) hcs
            refine ⟨zeros + 1, ?_⟩
            rw [List.replicate_succ, List.cons_append]
            exact congrArg ('0' :: ·) hzeros
      · have hpos : 0 < c.toNat - 48 := by
          have hne : c.toNat ≠ 48 := fun heq => hzero (Char.toNat_inj.1 heq)
          omega
        refine ⟨0, ?_⟩
        have happend := toDigits_append hpos hcs
        rw [Nat.toDigits_of_lt_base hfirst, digitChar_sub hc] at happend
        rw [Nat.ofDigitChars_cons]
        simpa using happend

theorem isDigit_of_mem_zeros {zeros n : Nat} {c : Char}
    (h : c ∈ List.replicate zeros '0' ++ Nat.toDigits 10 n) : isDigit c = true := by
  rcases List.mem_append.1 h with h | h
  · rw [List.eq_of_mem_replicate h]
    rfl
  · exact isDigit_of_mem_toDigits h

/-- What is read as a number is its numeral behind zeros. -/
theorem readDigits?_eq_some_iff {cs : List Char} {n : Nat} :
    readDigits? 10 cs = some n ↔ ∃ zeros, cs = List.replicate zeros '0' ++ Nat.toDigits 10 n := by
  rw [readDigits?_ten_iff]
  constructor
  · rintro ⟨hne, hdigits, rfl⟩
    exact exists_zeros hne hdigits
  · rintro ⟨zeros, rfl⟩
    refine ⟨by simp, fun c => isDigit_of_mem_zeros, ?_⟩
    rw [Nat.ofDigitChars_append, Nat.ofDigitChars_replicate_zero, Nat.mul_zero,
      Nat.ofDigitChars_ten_toDigits]

/-- What is read as a number below a bound may also have a plus sign in front. -/
theorem readBounded?_eq_some_iff {limit n : Nat} {cs : List Char} :
    readBounded? 10 limit cs = some n ↔
      n < limit ∧ ∃ sign ∈ [[], ['+']], ∃ zeros,
        cs = sign ++ (List.replicate zeros '0' ++ Nat.toDigits 10 n) := by
  simp only [readBounded?_eq_some_iff_readDigits?, readDigits?_eq_some_iff]
  constructor
  · rintro ⟨hlimit, sign, hsign, _, rfl, zeros, rfl⟩
    exact ⟨hlimit, sign, hsign, zeros, rfl⟩
  · rintro ⟨hlimit, sign, hsign, zeros, rfl⟩
    exact ⟨hlimit, sign, hsign, _, rfl, zeros, rfl⟩

end StyleSense.Text
