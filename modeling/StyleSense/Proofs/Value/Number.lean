/-
# Texts that are numbers

A script takes a text for a number if nothing is left of it without the blanks at
its ends, or if what is left is an infinity, a decimal, or whole digits behind a
radix mark; any other text becomes the value that is no number.

Texts are read so, but for two things about digits behind a radix mark. They are
no number if what they write does not fit 64 bits, and a plus sign may stand
between the mark and digits that do.
-/

import StyleSense.Proofs.Decimal.Reader
import StyleSense.Value.Number

namespace StyleSense

open StyleSense.Text StyleSense.Decimal

/-- What announces a radix behind a zero. -/
def radixMarks : List (Char × Nat) :=
  [('x', 16), ('X', 16), ('o', 8), ('O', 8), ('b', 2), ('B', 2)]

/-- Texts that a script takes for a number, without blanks at their ends. -/
inductive IsNumeric : List Char → Prop
  | nothing : IsNumeric []
  | infinity {sign : List Char} (hsign : sign ∈ signs) : IsNumeric (sign ++ "Infinity".toList)
  | decimal {sign ds : List Char} (hsign : sign ∈ signs) (h : IsDecimal ds) :
      IsNumeric (sign ++ ds)
  | whole {mark : Char} {radix n : Nat} {ds : List Char} (hmark : (mark, radix) ∈ radixMarks)
      (h : Writes radix ds n) : IsNumeric ('0' :: mark :: ds)

/-- Digits behind a radix mark that write more than 64 bits hold. -/
def IsTooWide (cs : List Char) : Prop :=
  ∃ mark radix ds n, (mark, radix) ∈ radixMarks ∧ cs = '0' :: mark :: ds ∧
    Writes radix ds n ∧ 2 ^ 64 ≤ n

/-- Digits behind a radix mark and a plus sign, which write what 64 bits hold. -/
def IsSignedInRadix (cs : List Char) : Prop :=
  ∃ mark radix ds n, (mark, radix) ∈ radixMarks ∧ cs = '0' :: mark :: '+' :: ds ∧
    Writes radix ds n ∧ n < 2 ^ 64

variable {cs ds : List Char} {mark : Char} {radix : Nat}

theorem radixMark?_eq_some_iff :
    radixMark? cs = some radix ↔
      ∃ mark ds, (mark, radix) ∈ radixMarks ∧ cs = '0' :: mark :: ds := by
  constructor
  · intro h
    unfold radixMark? at h
    split at h
    all_goals cases h
    all_goals exact ⟨_, _, by decide, rfl⟩
  · rintro ⟨mark, ds, hmark, rfl⟩
    simp only [radixMarks, List.mem_cons, Prod.mk.injEq, List.not_mem_nil, or_false] at hmark
    rcases hmark with ⟨rfl, rfl⟩ | ⟨rfl, rfl⟩ | ⟨rfl, rfl⟩ | ⟨rfl, rfl⟩ | ⟨rfl, rfl⟩ | ⟨rfl, rfl⟩ <;>
      rfl

theorem radix_le_sixteen (hmark : (mark, radix) ∈ radixMarks) : radix ≤ 16 := by
  have hall : ∀ entry ∈ radixMarks, entry.2 ≤ 16 := by decide
  exact hall _ hmark

/-- Each mark announces one radix. -/
theorem radix_eq_of_mem {radix' : Nat} (h : (mark, radix) ∈ radixMarks)
    (h' : (mark, radix') ∈ radixMarks) : radix = radix' := by
  have hall : ∀ entry ∈ radixMarks, ∀ entry' ∈ radixMarks,
      entry.1 = entry'.1 → entry.2 = entry'.2 := by decide
  exact hall _ h _ h' rfl

/-- The digits behind a mark write one number. -/
theorem writes_unique {n n' : Nat} (hmark : (mark, radix) ∈ radixMarks) (h : Writes radix ds n)
    (h' : Writes radix ds n') : n = n' := by
  have hradix := radix_le_sixteen hmark
  rw [← readDigits?_eq_some_iff_writes hradix] at h h'
  exact Option.some.inj (h.symm.trans h')

/-- A text with a mark is announced by that mark only. -/
theorem isTooWide_marked_iff (hmark : (mark, radix) ∈ radixMarks) :
    IsTooWide ('0' :: mark :: ds) ↔ ∃ n, Writes radix ds n ∧ 2 ^ 64 ≤ n := by
  constructor
  · rintro ⟨_, radix', _, n, hmark', ⟨⟩, hwrites, hn⟩
    obtain rfl := radix_eq_of_mem hmark hmark'
    exact ⟨n, hwrites, hn⟩
  · rintro ⟨n, hwrites, hn⟩
    exact ⟨mark, radix, ds, n, hmark, rfl, hwrites, hn⟩

theorem isSignedInRadix_marked_iff (hmark : (mark, radix) ∈ radixMarks) :
    IsSignedInRadix ('0' :: mark :: ds) ↔
      ∃ rest n, ds = '+' :: rest ∧ Writes radix rest n ∧ n < 2 ^ 64 := by
  constructor
  · rintro ⟨_, radix', rest, n, hmark', ⟨⟩, hwrites, hn⟩
    obtain rfl := radix_eq_of_mem hmark hmark'
    exact ⟨rest, n, rfl, hwrites, hn⟩
  · rintro ⟨rest, n, rfl, hwrites, hn⟩
    exact ⟨mark, radix, rest, n, hmark, rfl, hwrites, hn⟩

/-- Behind a mark, what is read is what fits, with or without a plus sign. -/
theorem exists_readBounded?_iff (hmark : (mark, radix) ∈ radixMarks) :
    (∃ n, readBounded? radix (Nat.pow 2 64) ds = some n) ↔
      (∃ n, Writes radix ds n) ∧ ¬IsTooWide ('0' :: mark :: ds) ∨
        IsSignedInRadix ('0' :: mark :: ds) := by
  rw [isTooWide_marked_iff hmark, isSignedInRadix_marked_iff hmark]
  simp only [readBounded?_eq_some_iff_readDigits?,
    readDigits?_eq_some_iff_writes (radix_le_sixteen hmark)]
  constructor
  · rintro ⟨n, hn, sign, hsign, rest, rfl, hwrites⟩
    rcases List.mem_pair.1 hsign with rfl | rfl
    · refine .inl ⟨⟨n, hwrites⟩, ?_⟩
      rintro ⟨n', hwrites', hn'⟩
      rw [writes_unique hmark hwrites' hwrites] at hn'
      exact absurd hn (Nat.not_lt.2 hn')
    · exact .inr ⟨rest, n, rfl, hwrites, hn⟩
  · rintro (⟨⟨n, hwrites⟩, hfits⟩ | ⟨rest, n, rfl, hwrites, hn⟩)
    · exact ⟨n, Nat.lt_of_not_le fun hn => hfits ⟨n, hwrites, hn⟩, [], by simp, ds, rfl, hwrites⟩
    · exact ⟨n, hn, ['+'], by simp, rest, rfl, hwrites⟩

theorem isDecimalChar_of_isDigits (h : IsDigits cs) : ∀ c ∈ cs, isDecimalChar c = true := by
  intro c hc
  rw [isDecimalChar, h.digits c hc]
  rfl

theorem isDecimalChar_of_mem_signs {sign : List Char} (h : sign ∈ signs) :
    ∀ c ∈ sign, isDecimalChar c = true := by
  simp only [signs, List.mem_cons, List.not_mem_nil, or_false] at h
  rcases h with rfl | rfl | rfl
  · exact List.forall_mem_nil _
  · exact List.forall_mem_singleton.2 rfl
  · exact List.forall_mem_singleton.2 rfl

theorem isDecimalChar_of_isExponent (h : IsExponent cs) : ∀ c ∈ cs, isDecimalChar c = true := by
  cases h with
  | absent => exact List.forall_mem_nil _
  | written hmark hsign hdigits =>
      have hmarks : ∀ mark ∈ ['e', 'E'], isDecimalChar mark = true :=
        List.forall_mem_cons.2 ⟨rfl, List.forall_mem_singleton.2 rfl⟩
      exact List.forall_mem_cons.2 ⟨hmarks _ hmark, List.forall_mem_append.2
        ⟨isDecimalChar_of_mem_signs hsign, isDecimalChar_of_isDigits hdigits⟩⟩

theorem isDecimalChar_of_isDecimal (h : IsDecimal cs) : ∀ c ∈ cs, isDecimalChar c = true := by
  have hpoint : isDecimalChar '.' = true := rfl
  cases h with
  | whole hdigits hexponent =>
      exact List.forall_mem_append.2
        ⟨isDecimalChar_of_isDigits hdigits, isDecimalChar_of_isExponent hexponent⟩
  | pointed hdigits hfraction hexponent =>
      refine List.forall_mem_append.2 ⟨isDecimalChar_of_isDigits hdigits, List.forall_mem_cons.2
        ⟨hpoint, List.forall_mem_append.2 ⟨?_, isDecimalChar_of_isExponent hexponent⟩⟩⟩
      rcases hfraction with rfl | hfraction
      · exact List.forall_mem_nil _
      · exact isDecimalChar_of_isDigits hfraction
  | fraction hdigits hexponent =>
      exact List.forall_mem_cons.2 ⟨hpoint, List.forall_mem_append.2
        ⟨isDecimalChar_of_isDigits hdigits, isDecimalChar_of_isExponent hexponent⟩⟩

/-- No mark is a character of decimals or begins the name of an infinity. -/
theorem isNumeric_marked_iff (hmark : (mark, radix) ∈ radixMarks) :
    IsNumeric ('0' :: mark :: ds) ↔ ∃ n, Writes radix ds n := by
  constructor
  · intro h
    generalize htext : '0' :: mark :: ds = text at h
    cases h with
    | nothing => cases htext
    | infinity hsign =>
        simp only [signs, List.mem_cons, List.not_mem_nil, or_false] at hsign
        rcases hsign with rfl | rfl | rfl <;> cases htext
    | decimal hsign h =>
        have hmarks : ∀ entry ∈ radixMarks, isDecimalChar entry.1 = false := by decide
        have hchars := List.forall_mem_append.2
          ⟨isDecimalChar_of_mem_signs hsign, isDecimalChar_of_isDecimal h⟩
        have hdecimal := hchars mark (htext ▸ by simp)
        rw [hmarks _ hmark] at hdecimal
        cases hdecimal
    | whole hmark' h =>
        cases htext
        obtain rfl := radix_eq_of_mem hmark hmark'
        exact ⟨_, h⟩
  · rintro ⟨n, h⟩
    exact .whole hmark h

theorem isNumeric_unmarked_iff (h : radixMark? cs = none) :
    IsNumeric cs ↔ cs = [] ∨ (∃ sign ∈ signs, cs = sign ++ "Infinity".toList) ∨
      (readDecimal? cs).isSome = true := by
  rw [isSome_readDecimal?]
  constructor
  · rintro (_ | ⟨hsign⟩ | ⟨hsign, hds⟩ | ⟨hmark, hwrites⟩)
    · exact .inl rfl
    · exact .inr (.inl ⟨_, hsign, rfl⟩)
    · exact .inr (.inr ⟨_, hsign, _, rfl, hds⟩)
    · rw [radixMark?_eq_some_iff.2 ⟨_, _, hmark, rfl⟩] at h
      cases h
  · rintro (rfl | ⟨sign, hsign, rfl⟩ | ⟨sign, hsign, ds, rfl, hds⟩)
    · exact .nothing
    · exact .infinity hsign
    · exact .decimal hsign hds

theorem isNaN_notANumber : notANumber.isNaN = true := by
  decide +kernel

theorem isNaN_textToNumber_of_marked {text : String} (hmark : (mark, radix) ∈ radixMarks)
    (htext : trim text.toList = '0' :: mark :: ds) :
    (textToNumber text).isNaN = false ↔ ∃ n, readBounded? radix (Nat.pow 2 64) ds = some n := by
  have hradix := radixMark?_eq_some_iff.2 ⟨_, _, hmark, htext⟩
  rw [textToNumber, hradix, htext]
  simp only [List.isEmpty_cons, Bool.false_eq_true, if_false, List.drop_succ_cons, List.drop_zero]
  cases readBounded? radix (Nat.pow 2 64) ds with
  | none => simp only [isNaN_notANumber, Bool.true_eq_false, reduceCtorEq, exists_false]
  | some n => exact iff_of_true (isNaN_toFloat _) ⟨n, rfl⟩

/-- The names of the infinities. -/
theorem exists_infinity_iff :
    (∃ sign ∈ signs, cs = sign ++ "Infinity".toList) ↔
      String.ofList cs ∈ ["Infinity", "+Infinity", "-Infinity"] := by
  simp only [signs, List.mem_cons, List.not_mem_nil, or_false, exists_eq_or_imp, exists_eq_left,
    ← String.toList_inj, String.toList_ofList]
  exact Iff.rfl

theorem isNaN_readDecimal?_getD :
    (if cs.all isDecimalChar then (readDecimal? cs).getD notANumber else notANumber).isNaN =
      false ↔ (readDecimal? cs).isSome = true := by
  constructor
  · intro h
    cases hread : readDecimal? cs with
    | some x => rfl
    | none =>
        rw [hread, Option.getD_none, ite_self, isNaN_notANumber] at h
        cases h
  · intro h
    obtain ⟨x, hx⟩ := Option.isSome_iff_exists.1 h
    obtain ⟨sign, hsign, ds, rfl, hds⟩ := isSome_readDecimal?.1 h
    have hchars := List.forall_mem_append.2
      ⟨isDecimalChar_of_mem_signs hsign, isDecimalChar_of_isDecimal hds⟩
    rw [if_pos (List.all_eq_true.2 hchars), hx, Option.getD_some]
    exact isNaN_of_readDecimal? hx

theorem isNaN_textToNumber_of_unmarked {text : String} (h : radixMark? (trim text.toList) = none) :
    (textToNumber text).isNaN = false ↔ IsNumeric (trim text.toList) := by
  rw [isNumeric_unmarked_iff h, exists_infinity_iff, textToNumber, h]
  generalize trim text.toList = cs
  have hinfinity (negative : Bool) : (infinity negative).isNaN = false := by
    revert negative
    decide +kernel
  dsimp only
  split
  next hempty => exact iff_of_true (isNaN_ofScientific 0 false 0) (.inl (List.isEmpty_iff.1 hempty))
  next hempty =>
    have hne : cs ≠ [] := by simpa using hempty
    split
    next hword => exact iff_of_true (hinfinity false) (.inr (.inl (by simp [hword])))
    next hword => exact iff_of_true (hinfinity false) (.inr (.inl (by simp [hword])))
    next hword => exact iff_of_true (hinfinity true) (.inr (.inl (by simp [hword])))
    next hplain hplus hminus =>
      have hword : String.ofList cs ∉ ["Infinity", "+Infinity", "-Infinity"] := by
        simp only [List.mem_cons, List.not_mem_nil, or_false, not_or]
        exact ⟨hplain, hplus, hminus⟩
      rw [isNaN_readDecimal?_getD]
      simp only [hne, hword, false_or]

/-- A text becomes a number exactly if a script takes it for one, except that no
number comes of digits behind a radix mark that 64 bits do not hold, and that a
plus sign behind the mark is read over. -/
theorem exists_number_iff (text : String) :
    (∃ x, (Value.string text).toNumber? = some x ∧ x.isNaN = false) ↔
      IsNumeric (trim text.toList) ∧ ¬IsTooWide (trim text.toList) ∨
        IsSignedInRadix (trim text.toList) := by
  have hnumber : (∃ x, (Value.string text).toNumber? = some x ∧ x.isNaN = false) ↔
      (textToNumber text).isNaN = false := by simp [Value.toNumber?]
  rw [hnumber]
  cases hradix : radixMark? (trim text.toList) with
  | some radix =>
      obtain ⟨mark, ds, hmark, htext⟩ := radixMark?_eq_some_iff.1 hradix
      rw [isNaN_textToNumber_of_marked hmark htext, htext, isNumeric_marked_iff hmark,
        exists_readBounded?_iff hmark]
  | none =>
      have hwide : ¬IsTooWide (trim text.toList) := by
        rintro ⟨mark, radix, ds, n, hmark, htext, -⟩
        rw [radixMark?_eq_some_iff.2 ⟨mark, ds, hmark, htext⟩] at hradix
        cases hradix
      have hsigned : ¬IsSignedInRadix (trim text.toList) := by
        rintro ⟨mark, radix, ds, n, hmark, htext, -⟩
        rw [radixMark?_eq_some_iff.2 ⟨mark, _, hmark, htext⟩] at hradix
        cases hradix
      rw [isNaN_textToNumber_of_unmarked hradix]
      simp only [hwide, hsigned, not_false_eq_true, and_true, or_false]

/-- A plus sign behind a radix mark is read over, and no number comes of seventeen
hexadecimal digits. -/
theorem exists_number_signed_hexadecimal :
    ((∃ x, (Value.string "0x+1").toNumber? = some x ∧ x.isNaN = false) ∧
      ¬IsNumeric (trim "0x+1".toList)) ∧
    (¬(∃ x, (Value.string "0x10000000000000000").toNumber? = some x ∧ x.isNaN = false) ∧
      IsNumeric (trim "0x10000000000000000".toList)) := by
  have hmark : ('x', 16) ∈ radixMarks := by decide
  have hsigned : trim "0x+1".toList = '0' :: 'x' :: '+' :: ['1'] := by decide +kernel
  have hwide : trim "0x10000000000000000".toList =
      '0' :: 'x' :: '1' :: List.replicate 16 '0' := by decide +kernel
  refine ⟨⟨⟨_, rfl, ?_⟩, ?_⟩, ?_, ?_⟩
  · exact (isNaN_textToNumber_of_marked hmark hsigned).2 ⟨1, by decide⟩
  · rw [hsigned]
    intro h
    obtain ⟨n, hn⟩ := (isNumeric_marked_iff hmark).1 h
    rw [← readDigits?_eq_some_iff_writes (by decide), readDigits?_plus] at hn
    cases hn
  · rintro ⟨x, ⟨⟩, hnumber⟩
    obtain ⟨n, hn⟩ := (isNaN_textToNumber_of_marked hmark hwide).1 hnumber
    have hnone : readBounded? 16 (Nat.pow 2 64) ('1' :: List.replicate 16 '0') = none := by
      decide +kernel
    cases hnone.symm.trans hn
  · rw [hwide]
    have hwrites : Writes 16 ('1' :: List.replicate 16 '0') (2 ^ 64) :=
      (readDigits?_eq_some_iff_writes (by decide)).1 (by decide +kernel)
    exact .whole hmark hwrites

end StyleSense
