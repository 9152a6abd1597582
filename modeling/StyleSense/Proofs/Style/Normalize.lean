/-
# Normalizing again

Normalized text is words with single blanks between them. Zeros are dropped word by
word, and quotes become part of the first word and of the last, so normalizing such
text again has nothing to do. Nor is normalized text empty: empty text becomes a pair
of quotes.

There is one exception. Blank text is not empty, but nothing is left of it when its
blanks collapse, and only the properties that hold text put quotes around nothing.
-/

import Mathlib.Tactic.SplitIfs
import StyleSense.Style.Normalize

namespace StyleSense.Style

open StyleSense.Text

/-- Characters that are not blank, at least one. -/
structure IsWord (cs : List Char) : Prop where
  ne_nil : cs ≠ []
  nonblank : ∀ c ∈ cs, isBlank c = false

/-- Words with single blanks between them. -/
def IsCollapsed (cs : List Char) : Prop :=
  ∃ words, (∀ word ∈ words, IsWord word) ∧ cs = [' '].intercalate words

/-- Text that is not empty, but of which nothing is left for the property. -/
structure Vanishes (property text : String) : Prop where
  ne_empty : text ≠ ""
  blank : ∀ c ∈ text.toList, isBlank c = true
  plain : property ∉ textual

variable {cs word rest : List Char} {words : List (List Char)} {c : Char} {previous : Option Char}
  {s property : String}

theorem isWord_reverse (hne : word ≠ []) (hword : ∀ c ∈ word, isBlank c = false) :
    IsWord word.reverse :=
  ⟨mt List.reverse_eq_nil_iff.1 hne, fun c hc => hword c (List.mem_reverse.1 hc)⟩

theorem isWord_of_mem_go (hword : ∀ c ∈ word, isBlank c = false) :
    ∀ w ∈ splitBlanks.go cs word, IsWord w := by
  induction cs generalizing word with
  | nil =>
      rw [splitBlanks.go]
      split
      next => exact List.forall_mem_nil _
      next hne => exact List.forall_mem_singleton.2 (isWord_reverse (by simpa using hne) hword)
  | cons c cs ih =>
      rw [splitBlanks.go]
      split
      next =>
        split
        next => exact ih nofun
        next hne =>
          exact List.forall_mem_cons.2 ⟨isWord_reverse (by simpa using hne) hword, ih nofun⟩
      next hc => exact ih (List.forall_mem_cons.2 ⟨by simpa using hc, hword⟩)

theorem isWord_of_mem_splitBlanks : ∀ w ∈ splitBlanks cs, IsWord w :=
  isWord_of_mem_go nofun

theorem go_append (hword : ∀ c ∈ word, isBlank c = false) (read : List Char) :
    splitBlanks.go (word ++ rest) read = splitBlanks.go rest (word.reverse ++ read) := by
  induction word generalizing read with
  | nil => rfl
  | cons c word ih =>
      obtain ⟨hc, hword⟩ := List.forall_mem_cons.1 hword
      rw [List.cons_append, splitBlanks.go, if_neg (by simp [hc]), ih hword, List.reverse_cons,
        List.append_assoc, List.singleton_append]

/-- The words are found again. -/
theorem splitBlanks_intercalate (h : ∀ w ∈ words, IsWord w) :
    splitBlanks ([' '].intercalate words) = words := by
  induction words with
  | nil => rfl
  | cons w words ih =>
      obtain ⟨hw, hwords⟩ := List.forall_mem_cons.1 h
      cases words with
      | nil =>
          rw [List.intercalate_singleton, splitBlanks, ← List.append_nil w, go_append hw.nonblank]
          simp [splitBlanks.go, hw.ne_nil]
      | cons v words =>
          have hrest : splitBlanks.go ([' '].intercalate (v :: words)) [] = v :: words := ih hwords
          rw [List.intercalate_cons_cons, List.append_assoc, splitBlanks, go_append hw.nonblank,
            List.singleton_append, splitBlanks.go, if_pos (by decide), hrest]
          simp [hw.ne_nil]

theorem go_eq_nil_iff :
    splitBlanks.go cs word = [] ↔ word = [] ∧ ∀ c ∈ cs, isBlank c = true := by
  induction cs generalizing word with
  | nil => simp [splitBlanks.go]
  | cons c cs ih =>
      rw [splitBlanks.go, List.forall_mem_cons]
      split
      next hc => split <;> simp_all
      next hc => simp_all

/-- Nothing is left of blanks, and something of all else. -/
theorem collapseBlanks_eq_empty_iff :
    collapseBlanks s = "" ↔ ∀ c ∈ s.toList, isBlank c = true := by
  have hjoined : [' '].intercalate (splitBlanks s.toList) = [] ↔ splitBlanks s.toList = [] := by
    constructor
    · intro h
      have hwords : ∀ w ∈ splitBlanks s.toList, IsWord w := isWord_of_mem_splitBlanks
      rw [← splitBlanks_intercalate hwords, h]
      rfl
    · intro h
      rw [h]
      rfl
  rw [collapseBlanks, ← String.toList_eq_nil_iff, String.toList_ofList, hjoined, splitBlanks,
    go_eq_nil_iff]
  simp

theorem isCollapsed_collapseBlanks (s : String) : IsCollapsed (collapseBlanks s).toList :=
  ⟨splitBlanks s.toList, isWord_of_mem_splitBlanks, String.toList_ofList⟩

theorem collapseBlanks_of_isCollapsed (h : IsCollapsed s.toList) : collapseBlanks s = s := by
  obtain ⟨words, hwords, hs⟩ := h
  rw [collapseBlanks, hs, splitBlanks_intercalate hwords, ← hs, String.ofList_toList]

theorem exists_of_leadsFraction (h : leadsFraction cs = true) :
    ∃ d rest, cs = '.' :: d :: rest ∧ isDigit d = true := by
  unfold leadsFraction at h
  split at h
  next d rest => exact ⟨d, rest, rfl, h⟩
  next => cases h

/-- No fraction reaches over a blank. -/
theorem leadsFraction_append_blank (cs rest : List Char) :
    leadsFraction (cs ++ ' ' :: rest) = leadsFraction cs := by
  match cs with
  | [] => rfl
  | [c] =>
      by_cases hc : c = '.'
      · subst hc
        rfl
      · simp [leadsFraction, hc]
  | c :: d :: cs =>
      by_cases hc : c = '.'
      · subst hc
        rfl
      · simp [leadsFraction, hc]

/-- In front of a zero, only letters, digits and points matter. -/
theorem stripZerosFrom_some (hc : (isAlphanumeric c || c = '.') = false) (cs : List Char) :
    stripZerosFrom (some c) cs = stripZerosFrom none cs := by
  cases cs with
  | nil => rfl
  | cons d cs => simp [stripZerosFrom, hc]

theorem stripZerosFrom_point (previous : Option Char) (cs : List Char) :
    stripZerosFrom previous ('.' :: cs) = '.' :: stripZerosFrom (some '.') cs := by
  simp [stripZerosFrom]

/-- Zeros are dropped word by word. -/
theorem stripZerosFrom_append_blank (previous : Option Char) (cs rest : List Char) :
    stripZerosFrom previous (cs ++ ' ' :: rest) =
      stripZerosFrom previous cs ++ ' ' :: stripZerosFrom none rest := by
  induction cs generalizing previous with
  | nil =>
      have hblank := stripZerosFrom_some (c := ' ') (by decide) rest
      simp [stripZerosFrom, hblank]
  | cons c cs ih =>
      rw [List.cons_append, stripZerosFrom, stripZerosFrom, leadsFraction_append_blank, ih]
      split <;> rfl

theorem mem_of_mem_stripZerosFrom (h : c ∈ stripZerosFrom previous cs) : c ∈ cs := by
  induction cs generalizing previous with
  | nil => exact h
  | cons d cs ih =>
      rw [stripZerosFrom] at h
      split at h
      · exact List.mem_cons_of_mem _ (ih h)
      · rcases List.mem_cons.1 h with rfl | h
        · exact List.mem_cons_self
        · exact List.mem_cons_of_mem _ (ih h)

/-- Behind a zero that is dropped, the point stays. -/
theorem stripZerosFrom_ne_nil (h : cs ≠ []) : stripZerosFrom previous cs ≠ [] := by
  cases cs with
  | nil => exact absurd rfl h
  | cons c cs =>
      rw [stripZerosFrom]
      split
      next hlead =>
        obtain ⟨d, rest, rfl, -⟩ := exists_of_leadsFraction (Bool.and_eq_true_iff.1 hlead).2
        rw [stripZerosFrom_point]
        exact List.cons_ne_nil _ _
      next => exact List.cons_ne_nil _ _

theorem IsWord.stripZerosFrom (h : IsWord cs) : IsWord (stripZerosFrom previous cs) :=
  ⟨stripZerosFrom_ne_nil h.ne_nil, fun c hc => h.nonblank c (mem_of_mem_stripZerosFrom hc)⟩

theorem stripZerosFrom_intercalate (words : List (List Char)) :
    stripZerosFrom none ([' '].intercalate words) =
      [' '].intercalate (words.map (Style.stripZerosFrom none)) := by
  induction words with
  | nil => rfl
  | cons w words ih =>
      cases words with
      | nil => rw [List.map_singleton, List.intercalate_singleton, List.intercalate_singleton]
      | cons v words =>
          simp only [List.map_cons, List.intercalate_cons_cons, List.append_assoc,
            List.singleton_append, stripZerosFrom_append_blank] at ih ⊢
          rw [ih]

theorem IsCollapsed.stripZerosFrom (h : IsCollapsed cs) : IsCollapsed (stripZerosFrom none cs) := by
  obtain ⟨words, hwords, rfl⟩ := h
  refine ⟨words.map (Style.stripZerosFrom none), ?_, stripZerosFrom_intercalate words⟩
  exact List.forall_mem_map.2 fun w hw => (hwords w hw).stripZerosFrom

/-- What a zero leads is left as it is by the dropping of others. -/
theorem leadsFraction_stripZerosFrom (cs : List Char) :
    leadsFraction (stripZerosFrom (some '0') cs) = leadsFraction cs := by
  have hkept (p : Char) (hp : (isAlphanumeric p || p = '.') = true) (c : Char) (cs : List Char) :
      stripZerosFrom (some p) (c :: cs) = c :: stripZerosFrom (some c) cs := by
    simp [stripZerosFrom, hp]
  match cs with
  | [] => rfl
  | [c] =>
      rw [hkept '0' (by decide)]
      rfl
  | c :: d :: cs =>
      rw [hkept '0' (by decide)]
      by_cases hc : c = '.'
      · subst hc
        rw [hkept '.' (by decide)]
        rfl
      · simp [leadsFraction, hc]

theorem stripZerosFrom_stripZerosFrom (previous : Option Char) (cs : List Char) :
    stripZerosFrom previous (stripZerosFrom previous cs) = stripZerosFrom previous cs := by
  induction cs generalizing previous with
  | nil => rfl
  | cons c cs ih =>
      by_cases hlead : (c = '0' && !previous.any fun p => isAlphanumeric p || p = '.') &&
          leadsFraction cs
      · have hstrip : stripZerosFrom previous (c :: cs) = stripZerosFrom previous cs := by
          obtain ⟨d, rest, rfl, -⟩ := exists_of_leadsFraction (Bool.and_eq_true_iff.1 hlead).2
          rw [stripZerosFrom, if_pos hlead, stripZerosFrom_point, stripZerosFrom_point]
        rw [hstrip, ih]
      · have hstrip : stripZerosFrom previous (c :: cs) = c :: stripZerosFrom (some c) cs := by
          rw [stripZerosFrom, if_neg hlead]
        rw [hstrip, stripZerosFrom, if_neg, ih]
        -- A zero that stays leads no fraction afterwards either.
        intro hagain
        by_cases hzero : c = '0'
        · subst hzero
          rw [leadsFraction_stripZerosFrom] at hagain
          exact hlead hagain
        · simp [hzero] at hagain

theorem stripLeadingZeros_stripLeadingZeros (s : String) :
    stripLeadingZeros (stripLeadingZeros s) = stripLeadingZeros s := by
  rw [stripLeadingZeros, stripLeadingZeros, String.toList_ofList, stripZerosFrom_stripZerosFrom]

theorem stripLeadingZeros_eq_empty_iff : stripLeadingZeros s = "" ↔ s = "" := by
  rw [stripLeadingZeros, ← String.toList_eq_nil_iff, String.toList_ofList,
    ← String.toList_eq_nil_iff]
  exact ⟨fun h => Decidable.byContradiction fun hne => stripZerosFrom_ne_nil hne h,
    fun h => by rw [h, stripZerosFrom]⟩

theorem IsCollapsed.cons (hc : isBlank c = false) (h : IsCollapsed cs) :
    IsCollapsed (c :: cs) := by
  obtain ⟨words, hwords, rfl⟩ := h
  cases words with
  | nil => exact ⟨[[c]], List.forall_mem_singleton.2 ⟨by simp, by simpa using hc⟩, rfl⟩
  | cons w words =>
      obtain ⟨hw, hwords⟩ := List.forall_mem_cons.1 hwords
      have hword : IsWord (c :: w) :=
        ⟨List.cons_ne_nil c w, List.forall_mem_cons.2 ⟨hc, hw.nonblank⟩⟩
      refine ⟨(c :: w) :: words, List.forall_mem_cons.2 ⟨hword, hwords⟩, ?_⟩
      rw [List.intercalate_cons_cons_left]

theorem IsCollapsed.concat (h : IsCollapsed cs) (hc : isBlank c = false) :
    IsCollapsed (cs ++ [c]) := by
  obtain ⟨words, hwords, rfl⟩ := h
  induction words with
  | nil => exact ⟨[[c]], List.forall_mem_singleton.2 ⟨by simp, by simpa using hc⟩, rfl⟩
  | cons w words ih =>
      obtain ⟨hw, hwords⟩ := List.forall_mem_cons.1 hwords
      cases words with
      | nil =>
          have hword : IsWord (w ++ [c]) :=
            ⟨by simp, List.forall_mem_append.2 ⟨hw.nonblank, by simpa using hc⟩⟩
          exact ⟨[w ++ [c]], List.forall_mem_singleton.2 hword, by simp⟩
      | cons v words =>
          obtain ⟨words', hwords', heq⟩ := ih hwords
          cases words' with
          | nil => simp at heq
          | cons v' words' =>
              refine ⟨w :: v' :: words', List.forall_mem_cons.2 ⟨hw, hwords'⟩, ?_⟩
              rw [List.intercalate_cons_cons, List.append_assoc, heq, List.intercalate_cons_cons]

theorem isQuoted_quotes (cs : List Char) : isQuoted ('"' :: (cs ++ ['"'])) = true := by
  have hlast : ('"' :: (cs ++ ['"'])).getLast? = some '"' := by
    rw [← List.cons_append, List.getLast?_concat]
  simp [isQuoted, hlast]

theorem quoteText_eq_or (s : String) : quoteText s = s ∨ quoteText s = "\"" ++ s ++ "\"" := by
  unfold quoteText
  split
  · exact .inl rfl
  · exact .inr rfl

theorem IsCollapsed.quoteText (h : IsCollapsed s.toList) : IsCollapsed (quoteText s).toList := by
  rcases quoteText_eq_or s with heq | heq
  · rwa [heq]
  · rw [heq]
    have := (h.concat (c := '"') (by decide)).cons (c := '"') (by decide)
    simpa using this

theorem quoteText_quoteText (s : String) : quoteText (quoteText s) = quoteText s := by
  by_cases hkept : isQuoted s.toList || s.toList.contains '(' || textKeywords.contains s
  · have hs : quoteText s = s := if_pos hkept
    rw [hs, hs]
  · have hs : quoteText s = "\"" ++ s ++ "\"" := if_neg hkept
    rw [hs]
    have : isQuoted ("\"" ++ s ++ "\"").toList = true := by simpa using isQuoted_quotes s.toList
    rw [quoteText, this]
    simp

theorem quoteText_ne_empty (s : String) : quoteText s ≠ "" := by
  unfold quoteText
  split
  next hkept =>
    rintro rfl
    revert hkept
    decide
  next => simp

namespace Normalizer

variable (n : Normalizer)

/-- Empty text becomes a pair of quotes, whatever the property. -/
theorem text_empty (property : String) : n.text property "" = "\"\"" := rfl

/-- What a property makes of text that is not empty. -/
theorem text_of_ne_empty (h : s ≠ "") (property : String) :
    n.text property s =
      if textual.contains property then quoteText (collapseBlanks s)
      else if isCustom property then collapseBlanks s
      else stripLeadingZeros (collapseBlanks s) := if_neg h

theorem isCollapsed_text (property s : String) : IsCollapsed (n.text property s).toList := by
  by_cases hs : s = ""
  · subst hs
    have hquotes : IsWord ['"', '"'] :=
      ⟨List.cons_ne_nil _ _, List.forall_mem_cons.2 ⟨rfl, List.forall_mem_singleton.2 rfl⟩⟩
    rw [text_empty]
    exact ⟨[['"', '"']], List.forall_mem_singleton.2 hquotes, by decide⟩
  · have hcollapsed := isCollapsed_collapseBlanks s
    rw [n.text_of_ne_empty hs]
    split_ifs
    · exact hcollapsed.quoteText
    · exact hcollapsed
    · rw [stripLeadingZeros, String.toList_ofList]
      exact hcollapsed.stripZerosFrom

/-- What a property does to text behind the collapse, it does once. -/
theorem text_text (h : n.text property s ≠ "") :
    n.text property (n.text property s) = n.text property s := by
  rw [n.text_of_ne_empty h, collapseBlanks_of_isCollapsed (n.isCollapsed_text property s)]
  by_cases hs : s = ""
  · subst hs
    rw [text_empty]
    split_ifs <;> decide
  · rw [n.text_of_ne_empty hs]
    split_ifs
    · exact quoteText_quoteText _
    · rfl
    · exact stripLeadingZeros_stripLeadingZeros _

theorem text_eq_empty_iff : n.text property s = "" ↔ Vanishes property s := by
  have hvanishes : Vanishes property s ↔
      s ≠ "" ∧ (∀ c ∈ s.toList, isBlank c = true) ∧ property ∉ textual :=
    ⟨fun h => ⟨h.ne_empty, h.blank, h.plain⟩, fun ⟨hne, hblank, hplain⟩ => ⟨hne, hblank, hplain⟩⟩
  rw [hvanishes]
  by_cases hs : s = ""
  · simp [hs, text_empty]
  · rw [n.text_of_ne_empty hs, ← collapseBlanks_eq_empty_iff]
    split_ifs with htextual
    · simp_all [quoteText_ne_empty]
    · simp_all
    · simp_all [stripLeadingZeros_eq_empty_iff]

/-- Normalizing text again under the same property changes nothing, and the text is
not empty: unless it vanishes, and then neither holds. -/
theorem normalize_normalize_iff (property s : String) :
    (n.normalize property (.text (n.normalize property (.text s))) =
        n.normalize property (.text s) ↔ ¬Vanishes property s) ∧
      (n.normalize property (.text s) ≠ "" ↔ ¬Vanishes property s) := by
  change (n.text property (n.text property s) = n.text property s ↔ _) ∧
    (n.text property s ≠ "" ↔ _)
  rw [← n.text_eq_empty_iff]
  refine ⟨⟨fun hagain hempty => ?_, n.text_text⟩, Iff.rfl⟩
  -- Text that vanishes comes back as a pair of quotes.
  rw [hempty, text_empty] at hagain
  exact absurd hagain (by decide)

/-- A blank margin vanishes: it becomes empty, and quotes when it is normalized again. -/
theorem normalize_normalize_blank :
    ¬∀ (n : Normalizer) (property s : String),
      n.normalize property (.text (n.normalize property (.text s))) =
          n.normalize property (.text s) ∧
        n.normalize property (.text s) ≠ "" := by
  intro h
  exact (h ⟨false⟩ "margin" " ").2 (by decide)

end Normalizer

end StyleSense.Style
