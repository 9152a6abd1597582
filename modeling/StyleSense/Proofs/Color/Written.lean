/-
# How a color is written

A color is meant to be written as a function of its channels or of its hue, as
digits behind a hash, or as a name. What is read as a color is written in one of
these ways, with one exception: a bare word of the letters `a` to `f` that has
as many of them as a color has digits. No such word is one of the names, and
each of them is read.

That holds with any parser of stylesheet colors that does what is documented of
them (`Reads`). What it makes of functions does not matter.
-/

import Mathlib.Data.Char
import Mathlib.Data.List.Forall2
import Mathlib.Data.List.Infix
import Mathlib.Data.List.TakeWhile
import StyleSense.Color.Reader
import StyleSense.Proofs.Text.Numeral

namespace StyleSense.Color

open StyleSense.Text

/-- How many digits write a color. -/
def digitCounts : List Nat := [3, 4, 6, 8]

/-- What is documented of a parser of stylesheet colors: it reads hexadecimal digits
behind a hash if they are as many as write a color, and a word if it is a name,
or else such digits itself. The word for no color may be read or not. -/
structure Reads (parser : List Char → Option Color) : Prop where
  hash {digits : List Char} (hdigits : ∀ d ∈ digits, isHexDigit d = true) :
    (parser ('#' :: digits)).isSome = true ↔ digits.length ∈ digitCounts
  word {word : List Char} (hword : ∀ c ∈ word, isLower c = true)
      (hcolor : String.ofList word ≠ "transparent") :
    (parser word).isSome = true ↔ String.ofList word ∈ names.map Prod.fst ∨
      word.length ∈ digitCounts ∧ ∀ d ∈ word, isHexDigit d = true

/-- The ways in which a color is meant to be written. -/
inductive Written : List Char → Prop
  /-- A function with its arguments in parentheses. -/
  | function {name blanks inner : List Char} (hname : String.ofList name ∈ functionNames)
      (hblanks : ∀ c ∈ blanks, isBlank c = true) (hinner : ')' ∉ inner) (hsome : inner ≠ []) :
      Written (name ++ blanks ++ '(' :: (inner ++ [')']))
  /-- Hexadecimal digits behind a hash. -/
  | hash {digits : List Char} (hcount : digits.length ∈ digitCounts)
      (hdigits : ∀ d ∈ digits, isHexDigit d = true) : Written ('#' :: digits)
  | name {word : List Char} (hname : String.ofList word ∈ names.map Prod.fst) : Written word

/-- Words of letters that are hexadecimal digits, as many as write a color. -/
structure IsBareDigits (word : List Char) : Prop where
  count : word.length ∈ digitCounts
  letters : ∀ c ∈ word, 'a' ≤ c ∧ c ≤ 'f'

/-- The digits of radix 16 are the hexadecimal ones, in either case. -/
theorem isSome_digitValue? (c : Char) : (digitValue? 16 c).isSome = isHexDigit c := by
  rw [Bool.eq_iff_iff]
  simp only [digitValue?, isHexDigit, isDigit, Bool.or_eq_true, Bool.and_eq_true,
    decide_eq_true_eq, le_iff_toNat_le, Char.reduceToNat]
  split_ifs <;> simp <;> omega

section

variable {α β : Type} {f : α → Option β} {xs : List α} {ys : List β}

theorem isSome_mapM : (xs.mapM f).isSome = true ↔ ∀ x ∈ xs, (f x).isSome = true := by
  induction xs with
  | nil => simp
  | cons x xs ih =>
      rw [List.mapM_cons, List.forall_mem_cons, ← ih]
      cases f x <;> cases xs.mapM f <;> simp

theorem forall₂_of_mapM_eq_some (h : xs.mapM f = some ys) :
    List.Forall₂ (fun x y => f x = some y) xs ys := by
  induction xs generalizing ys with
  | nil =>
      cases h
      exact .nil
  | cons x xs ih =>
      rw [List.mapM_cons] at h
      obtain ⟨y, hy, h⟩ := Option.bind_eq_some_iff.1 h
      obtain ⟨rest, hrest, h⟩ := Option.bind_eq_some_iff.1 h
      cases h
      exact .cons hy (ih hrest)

end

/-- Digits are read exactly if they are as many as write a color. -/
theorem isSome_ofDigits? (digits : List Char) :
    (ofDigits? digits).isSome = true ↔
      digits.length ∈ digitCounts ∧ ∀ d ∈ digits, isHexDigit d = true := by
  simp only [← isSome_digitValue?, ← isSome_mapM]
  unfold ofDigits?
  cases hvalues : digits.mapM (digitValue? 16) with
  | none => simp
  | some values =>
      rw [(forall₂_of_mapM_eq_some hvalues).length_eq]
      simp only [Option.bind_eq_bind, Option.bind_some, digitCounts]
      split
      · simp
      · simp
      · simp
      · simp
      · rename_i h₃ h₄ h₆ h₈
        suffices values.length ∉ [3, 4, 6, 8] by simpa using this
        intro hcount
        match values, h₃, h₄, h₆, h₈, hcount with
        | [_, _, _], h₃, _, _, _, _ => exact h₃ _ _ _ rfl
        | [_, _, _, _], _, h₄, _, _, _ => exact h₄ _ _ _ _ rfl
        | [_, _, _, _, _, _], _, _, h₆, _, _ => exact h₆ _ _ _ _ _ _ rfl
        | [_, _, _, _, _, _, _, _], _, _, _, h₈, _ => exact h₈ _ _ _ _ _ _ _ _ rfl

/-- Every name has a letter behind `f`. -/
theorem exists_letter_of_mem_names {name : String} (h : name ∈ names.map Prod.fst) :
    ∃ c ∈ name.toList, 'f' < c := by
  have hall : (names.all fun entry => entry.1.toList.any ('f' < ·)) = true := by decide +kernel
  simp only [List.all_eq_true, List.any_eq_true, decide_eq_true_eq] at hall
  obtain ⟨entry, hentry, rfl⟩ := List.mem_map.1 h
  exact hall entry hentry

/-- Bare digits are none of the ways in which a color is meant to be written. -/
theorem not_isBareDigits_of_written {word : List Char} (h : Written word) :
    ¬IsBareDigits word := by
  intro hbare
  cases h with
  | function => exact absurd (hbare.letters '(' (by simp)) (by decide)
  | hash => exact absurd (hbare.letters '#' (by simp)) (by decide)
  | name hname =>
      have ⟨c, hc, hlate⟩ := exists_letter_of_mem_names hname
      exact absurd (hbare.letters c (by simpa using hc)).2 (not_le.2 hlate)

theorem append_of_splitOnce? {c : Char} {text before after : List Char}
    (h : splitOnce? [c] text = some (before, after)) : text = before ++ c :: after := by
  induction text generalizing before with
  | nil => simp [splitOnce?] at h
  | cons d text ih =>
      rw [splitOnce?] at h
      split at h
      next hc => simp_all
      next =>
        simp only [Option.map_eq_some_iff, Prod.exists, Prod.mk.injEq] at h
        have ⟨rest, _, hrest, hbefore, hafter⟩ := h
        subst hbefore hafter
        rw [ih hrest, List.cons_append]

/-- The blanks at the end of a text are blank. -/
theorem exists_trimEnd_append (cs : List Char) :
    ∃ blanks, cs = trimEnd cs ++ blanks ∧ ∀ c ∈ blanks, isBlank c = true := by
  exists (cs.reverse.takeWhile isBlank).reverse
  constructor
  · rw [trimEnd, ← List.reverse_append, List.takeWhile_append_dropWhile, List.reverse_reverse]
  · intro c hc
    exact List.mem_takeWhile_imp (List.mem_reverse.1 hc)

theorem written_of_isFunction {text : List Char} (h : isFunction text = true) :
    Written text := by
  unfold isFunction at h
  split at h
  next => cases h
  next name rest hsplit =>
    rw [Bool.and_eq_true] at h
    obtain ⟨hname, h⟩ := h
    split at h
    next => cases h
    next inner hrest =>
      obtain ⟨blanks, hbefore, hblanks⟩ := exists_trimEnd_append name
      rw [append_of_splitOnce? hsplit, hbefore,
        ← List.isSuffixOf?_eq_some_iff_append_eq.1 hrest]
      rw [Bool.and_eq_true, Bool.not_eq_true', Bool.not_eq_true'] at h
      refine .function (List.contains_iff_mem.1 hname) hblanks ?_ ?_
      · simpa using h.1
      · simpa using h.2

/-- Of the lower case letters, the hexadecimal digits are `a` to `f`. -/
theorem isHexDigit_and_isLower_iff {c : Char} :
    isHexDigit c = true ∧ isLower c = true ↔ 'a' ≤ c ∧ c ≤ 'f' := by
  simp only [isHexDigit, isDigit, isLower, Bool.or_eq_true, Bool.and_eq_true,
    decide_eq_true_eq, le_iff_toNat_le, Char.reduceToNat]
  omega

/-- Bare digits are exactly the lower case words of hexadecimal digits, as many as
write a color. -/
theorem isBareDigits_iff {word : List Char} :
    IsBareDigits word ↔ (∀ c ∈ word, isLower c = true) ∧
      word.length ∈ digitCounts ∧ ∀ d ∈ word, isHexDigit d = true := by
  constructor
  · intro h
    have hletters := fun c hc => isHexDigit_and_isLower_iff.2 (h.letters c hc)
    exact ⟨fun c hc => (hletters c hc).2, h.count, fun c hc => (hletters c hc).1⟩
  · intro ⟨hlower, hcount, hdigits⟩
    exact ⟨hcount, fun c hc => isHexDigit_and_isLower_iff.1 ⟨hdigits c hc, hlower c hc⟩⟩

section

variable {parser : List Char → Option Color} {text : String}

theorem isSome_parse?_of_isBareDigits (hparser : Reads parser)
    (h : IsBareDigits (trim text.toList)) : (parse? parser text).isSome = true := by
  obtain ⟨hlower, hdigits⟩ := isBareDigits_iff.1 h
  -- the words for no color and for the current color have more letters
  have hlong : ∀ name : String, name.toList.length ∉ digitCounts →
      ∀ word : List Char, word.length = (trim text.toList).length → String.ofList word ≠ name := by
    rintro name hname word hlength rfl
    rw [String.toList_ofList, hlength] at hname
    exact hname h.count
  have hlowered : (lowerAscii (trim text.toList)).length = (trim text.toList).length :=
    List.length_map _
  have hsome : (trim text.toList).isEmpty = false := by
    rw [List.isEmpty_eq_false_iff]
    intro hnil
    rw [hnil] at hdigits
    exact absurd hdigits.1 (by decide)
  have hword : isWord (trim text.toList) = true := by
    rw [isWord, hsome, List.all_eq_true.2 hlower]
    rfl
  unfold parse?
  dsimp only
  rw [if_neg, if_pos]
  · exact (hparser.word hlower (hlong _ (by decide) _ rfl)).2 (.inr hdigits)
  · rw [hword, Bool.or_true]
  · rw [Bool.or_eq_true, decide_eq_true_eq, decide_eq_true_eq]
    exact not_or.2 ⟨hlong _ (by decide) _ hlowered, hlong _ (by decide) _ hlowered⟩

/-- What has the look of a color and is read is written as a color is meant to be,
if it is not bare digits. -/
theorem written_of_isSome_parse? (hparser : Reads parser)
    (h : (parse? parser text).isSome = true) (hbare : ¬IsBareDigits (trim text.toList)) :
    Written (trim text.toList) := by
  unfold parse? at h
  dsimp only at h
  split at h
  next => cases h
  next hcolor =>
  split at h
  next hlook =>
    rw [Bool.or_eq_true, Bool.or_eq_true] at hlook
    rcases hlook with (hfunction | hhash) | hword
    · exact written_of_isFunction hfunction
    · unfold isHash at hhash
      split at hhash
      next digits htrimmed =>
        rw [Bool.and_eq_true, List.all_eq_true] at hhash
        rw [htrimmed] at h ⊢
        exact .hash ((hparser.hash hhash.2).1 h) hhash.2
      next => cases hhash
    · rw [isWord, Bool.and_eq_true, List.all_eq_true] at hword
      have htransparent : String.ofList (trim text.toList) ≠ "transparent" := by
        intro heq
        rw [← String.toList_inj, String.toList_ofList] at heq
        rw [heq] at hcolor
        exact hcolor (by decide)
      rcases (hparser.word hword.2 htransparent).1 h with hname | hdigits
      · exact .name hname
      · exact absurd (isBareDigits_iff.2 ⟨hword.2, hdigits⟩) hbare
  next => cases h

/-- What is read as a color is written as a function, as digits behind a hash or
as a name, unless it is bare digits, which are never written so. And bare digits
are read. -/
theorem written_iff_of_isSome_parse? (hparser : Reads parser) (text : String) :
    ((parse? parser text).isSome = true →
      (Written (trim text.toList) ↔ ¬IsBareDigits (trim text.toList))) ∧
    (IsBareDigits (trim text.toList) → (parse? parser text).isSome = true) :=
  ⟨fun h => ⟨not_isBareDigits_of_written, written_of_isSome_parse? hparser h⟩,
    isSome_parse?_of_isBareDigits hparser⟩

end

theorem isSome_named? (name : String) :
    (named? name).isSome = true ↔ name ∈ names.map Prod.fst := by
  rw [named?, List.lookup_isSome_iff, List.mem_map]
  constructor
  · rintro ⟨entry, hentry, hname⟩
    exact ⟨entry, hentry, (eq_of_beq hname).symm⟩
  · rintro ⟨entry, hentry, rfl⟩
    exact ⟨entry, hentry, beq_self_eq_true _⟩

theorem splitOnce?_eq_none {c : Char} {text : List Char} (h : c ∉ text) :
    splitOnce? [c] text = none := by
  induction text with
  | nil => rfl
  | cons d text ih =>
      obtain ⟨hd, htext⟩ := not_or.1 (mt List.mem_cons.2 h)
      rw [splitOnce?, ih htext, if_neg]
      · rfl
      · simpa [List.isPrefixOf] using hd

/-- The parser that runs does what is documented. -/
theorem reads_read? : Reads read? where
  hash hdigits := (isSome_ofDigits? _).trans (and_iff_left hdigits)
  word {word} hword hcolor := by
    have hopen : '(' ∉ word := fun hmem => absurd (hword '(' hmem) (by decide)
    unfold read?
    split
    next digits => exact absurd (hword '#' List.mem_cons_self) (by decide)
    next =>
      have htransparent : word ≠ "transparent".toList := fun heq =>
        hcolor (by rw [heq, String.ofList_toList])
      rw [if_neg htransparent, ← isSome_named?, ← isSome_ofDigits?]
      cases named? (String.ofList word) with
      | some value => simp
      | none =>
          rw [ofFunction?, splitOnce?_eq_none hopen]
          simp

theorem isBareDigits_fade : IsBareDigits (trim "fade".toList) := by
  have hword : trim "fade".toList = ['f', 'a', 'd', 'e'] := by decide +kernel
  rw [hword]
  refine ⟨by decide, ?_⟩
  simp only [List.forall_mem_cons, List.not_mem_nil, IsEmpty.forall_iff, implies_true, and_true]
  decide

/-- The parser that runs reads a function with blanks around it and within it, and
bare digits. -/
theorem written_iff_of_isSome_parse?_read? :
    Reads read? ∧ (ofText? " rgb (10%, 20% 30% /1) ").isSome = true ∧
      Written (trim " rgb (10%, 20% 30% /1) ".toList) ∧ IsBareDigits (trim "fade".toList) ∧
      (ofText? "fade").isSome = true := by
  have hfunction : (ofText? " rgb (10%, 20% 30% /1) ").isSome = true := by decide +kernel
  have hbare : ¬IsBareDigits (trim " rgb (10%, 20% 30% /1) ".toList) := fun hbare =>
    absurd (hbare.letters 'r' (by decide +kernel)).2 (by decide)
  exact ⟨reads_read?, hfunction,
    ((written_iff_of_isSome_parse? reads_read? _).1 hfunction).2 hbare, isBareDigits_fade,
    (written_iff_of_isSome_parse? reads_read? _).2 isBareDigits_fade⟩

/-- A word of the letters `a` to `f` is read as a color that it does not name. -/
theorem isSome_ofText?_fade :
    (ofText? "fade").isSome = true ∧ ¬Written (trim "fade".toList) :=
  ⟨by decide +kernel, fun h => not_isBareDigits_of_written h isBareDigits_fade⟩

end StyleSense.Color
