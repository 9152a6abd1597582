/-
# What keyword completion suggests

The keywords of a property stand in tables, one after the other. A keyword that
stands in several of them is suggested once, for the first table that has it.
So the suggestions behind a place in a value are known from the tables and from
the word that ends there, and from them alone: neither other declarations of the
value nor its lines have any part in it.
-/

import StyleSense.Proofs.Completion.Sheet

namespace StyleSense.Completion

open StyleSense.Text StyleSense.Style

/-- The keywords of a property in their tables: its own, those of all properties
if it is a custom one, then the colors if it takes a color, and those that every
property takes. -/
def tables (property : String) : List (String × SuggestionKind) :=
  let keywords := if "--".toList <+: property.toList then propertyKeywords.flatMap Prod.snd
    else (propertyKeywords.lookup property).getD []
  let colors := if "--".toList <+: property.toList ∨ property ∈ colorProperties then
    colorKeywords else []
  keywords.map (·, .value) ++ colors.map (·, .color) ++ globalKeywords.map (·, .keyword)

/-- The place of the first entry for a label. -/
def rank (entries : List (String × SuggestionKind)) (label : String) : Nat :=
  entries.findIdx fun entry => entry.1 = label

/-- Of a list with one entry for each key, a filter on the key leaves that entry. -/
theorem flatMap_filter_eq_lookup {α β : Type} [DecidableEq α] (key : α)
    {entries : List (α × List β)} (h : (entries.map Prod.fst).Nodup) :
    (entries.filter fun entry => entry.1 = key).flatMap Prod.snd =
      (entries.lookup key).getD [] := by
  induction entries with
  | nil => rfl
  | cons entry entries ih =>
      obtain ⟨name, values⟩ := entry
      obtain ⟨hfresh, hnodup⟩ := List.nodup_cons.1 h
      by_cases hname : name = key
      · subst hname
        have hnone : (entries.filter fun entry => entry.1 = name) = [] :=
          List.filter_eq_nil_iff.2 fun entry hmem heq =>
            hfresh (List.mem_map.2 ⟨entry, hmem, of_decide_eq_true heq⟩)
        rw [List.filter_cons, if_pos (decide_eq_true rfl), hnone, List.lookup_cons_self]
        exact List.append_nil values
      · rw [List.filter_cons, if_neg (by simpa using hname), ih hnodup, List.lookup_cons,
          beq_false_of_ne (Ne.symm hname)]

theorem nodup_propertyKeywords : (propertyKeywords.map Prod.fst).Nodup := by
  decide

theorem isCustom_iff {property : String} :
    isCustom property = true ↔ "--".toList <+: property.toList :=
  List.isPrefixOf_iff_prefix

theorem candidates_eq (property : String) :
    candidates property = firstOfEach [] (tables property) := by
  have hown :
      ((propertyKeywords.filter fun entry => isCustom property || entry.1 = property).flatMap
        fun entry => entry.2.map fun label => (label, SuggestionKind.value)) =
      (if "--".toList <+: property.toList then propertyKeywords.flatMap Prod.snd
        else (propertyKeywords.lookup property).getD []).map (·, SuggestionKind.value) := by
    rw [← List.map_flatMap]
    refine congrArg (List.map _) ?_
    cases hcustom : isCustom property with
    | true =>
        rw [if_pos (isCustom_iff.1 hcustom)]
        exact congrArg (List.flatMap Prod.snd) (List.filter_eq_self.2 fun _ _ => rfl)
    | false =>
        rw [if_neg fun hstarts => Bool.false_ne_true (hcustom ▸ isCustom_iff.2 hstarts)]
        exact flatMap_filter_eq_lookup property nodup_propertyKeywords
  have hcolors : (if isCustom property || colorProperties.contains property then
      colorKeywords.map fun label => (label, SuggestionKind.color) else []) =
      (if "--".toList <+: property.toList ∨ property ∈ colorProperties then
        colorKeywords else []).map (·, SuggestionKind.color) := by
    rw [apply_ite (List.map _), List.map_nil]
    refine if_congr ?_ rfl rfl
    rw [Bool.or_eq_true, isCustom_iff, List.contains_iff_mem]
  rw [tables, ← hown, ← hcolors]
  rfl

/-- What is kept is the first entry for each label that is not seen before. -/
theorem mem_firstOfEach {seen : List String} {entries : List (String × SuggestionKind)}
    {label : String} {kind : SuggestionKind} :
    (label, kind) ∈ firstOfEach seen entries ↔
      label ∉ seen ∧ entries.find? (fun entry => entry.1 = label) = some (label, kind) := by
  induction entries generalizing seen with
  | nil => simp [firstOfEach]
  | cons first entries ih =>
      obtain ⟨name, sort⟩ := first
      rw [firstOfEach, List.find?_cons]
      by_cases hname : name = label
      · subst hname
        by_cases hseen : name ∈ seen
        · rw [if_pos (List.contains_iff_mem.2 hseen), ih]
          simp only [hseen, not_true_eq_false, false_and]
        · rw [if_neg (by simpa using hseen), List.mem_cons, ih]
          simp only [hseen, List.mem_cons_self, not_true_eq_false, false_and, or_false,
            not_false_eq_true, true_and, decide_true, Option.some.injEq]
          exact eq_comm
      · have hlabel : (label, kind) ≠ (name, sort) := fun heq => hname (Prod.ext_iff.1 heq).1.symm
        rw [decide_eq_false hname]
        by_cases hseen : name ∈ seen
        · rw [if_pos (List.contains_iff_mem.2 hseen), ih]
        · rw [if_neg (by simpa using hseen), List.mem_cons, ih, List.mem_cons]
          simp only [hlabel, Ne.symm hname, false_or]

theorem rank_cons_of_ne {first : String × SuggestionKind} {label : String} (h : label ≠ first.1)
    (entries : List (String × SuggestionKind)) :
    rank (first :: entries) label = rank entries label + 1 := by
  rw [rank, List.findIdx_cons, decide_eq_false (Ne.symm h)]
  rfl

theorem rank_cons_self (label : String) (kind : SuggestionKind)
    (entries : List (String × SuggestionKind)) : rank ((label, kind) :: entries) label = 0 := by
  rw [rank, List.findIdx_cons, decide_eq_true rfl]
  rfl

/-- Labels are kept in the order of their first entries. -/
theorem pairwise_firstOfEach (seen : List String) (entries : List (String × SuggestionKind)) :
    (firstOfEach seen entries).Pairwise fun a b => rank entries a.1 < rank entries b.1 := by
  induction entries generalizing seen with
  | nil => exact List.Pairwise.nil
  | cons first entries ih =>
      obtain ⟨name, sort⟩ := first
      -- the labels that are kept behind an entry are others than its own
      have hbehind : ∀ before, name ∈ before →
          ∀ entry ∈ firstOfEach before entries,
            rank ((name, sort) :: entries) entry.1 = rank entries entry.1 + 1 :=
        fun before hname entry hmem =>
          have hother : entry.1 ≠ name := fun heq => (mem_firstOfEach.1 hmem).1 (heq ▸ hname)
          rank_cons_of_ne hother entries
      have hlift : ∀ before, name ∈ before → (firstOfEach before entries).Pairwise fun a b =>
          rank ((name, sort) :: entries) a.1 < rank ((name, sort) :: entries) b.1 := by
        intro before hname
        refine (ih before).imp_of_mem fun ha hb hlt => ?_
        rw [hbehind before hname _ ha, hbehind before hname _ hb]
        exact Nat.succ_lt_succ hlt
      rw [firstOfEach]
      split
      next hseen => exact hlift seen (List.contains_iff_mem.1 hseen)
      next =>
        refine List.pairwise_cons.2 ⟨fun entry hmem => ?_, hlift _ List.mem_cons_self⟩
        rw [hbehind _ List.mem_cons_self entry hmem, rank_cons_self]
        exact Nat.succ_pos _

/-- ASCII letters, digits and the hyphen. -/
def IsWordLetter (c : Char) : Prop :=
  'a' ≤ c ∧ c ≤ 'z' ∨ 'A' ≤ c ∧ c ≤ 'Z' ∨ '0' ≤ c ∧ c ≤ '9' ∨ c = '-'

/-- The longest text of letters, digits and hyphens that another one ends in. -/
structure IsLastWord (text word : List Char) : Prop where
  ends : word <:+ text
  spelled : ∀ c ∈ word, IsWordLetter c
  longest : ∀ other, other <:+ text → (∀ c ∈ other, IsWordLetter c) → other.length ≤ word.length

theorem isWordChar_iff {c : Char} : isWordChar c = true ↔ IsWordLetter c := by
  simp only [isWordChar, isAlphanumeric, isLetter, isDigit, IsWordLetter, Bool.or_eq_true,
    Bool.and_eq_true, decide_eq_true_eq, or_assoc]

/-- Taking characters of words from the end gives the longest word there. -/
theorem isLastWord_rtakeWhile (text : List Char) :
    IsLastWord text (text.rtakeWhile isWordChar) where
  ends := List.rtakeWhile_suffix _ _
  spelled c hc := isWordChar_iff.1 (List.mem_rtakeWhile_imp hc)
  longest := by
    rintro other ⟨front, rfl⟩ hspelled
    have hother : ∀ c ∈ other.reverse, isWordChar c = true := fun c hc =>
      isWordChar_iff.2 (hspelled c (List.mem_reverse.1 hc))
    rw [List.rtakeWhile, List.reverse_append, List.takeWhile_append_of_pos hother,
      List.length_reverse, List.length_append, List.length_reverse]
    exact Nat.le_add_right _ _

theorem IsLastWord.eq {text word other : List Char} (h : IsLastWord text word)
    (hother : IsLastWord text other) : word = other :=
  (List.suffix_of_suffix_length_le h.ends hother.ends
    (hother.longest word h.ends h.spelled)).eq_of_length_le
    (h.longest other hother.ends hother.spelled)

/-- The label and the kind of a suggestion are those of an entry that is kept. -/
theorem pairwise_suggestions (property : String) (word : List Char) (range : Range) :
    (suggestions property word range).Pairwise fun a b =>
      rank (tables property) a.label < rank (tables property) b.label := by
  rw [suggestions, List.pairwise_filterMap, candidates_eq]
  refine (pairwise_firstOfEach [] (tables property)).imp ?_
  intro a b hlt first hfirst second hsecond
  cases (Option.ite_none_right_eq_some.1 hfirst).2
  cases (Option.ite_none_right_eq_some.1 hsecond).2
  exact hlt

theorem mem_suggestions_iff {property : String} {word : List Char} {range : Range}
    {item : Suggestion} :
    item ∈ suggestions property word range ↔
      (tables property).find? (fun entry => entry.1 = item.label) = some (item.label, item.kind) ∧
        lowerAscii word <+: item.label.toList ∧ item.range = range := by
  rw [mem_suggestions, candidates_eq, mem_firstOfEach]
  simp only [List.not_mem_nil, not_false_eq_true, true_and]

namespace Declaration

/-- The main statement, for an ASCII declaration whose property has no separator of
its own. Behind any place of the value completion gives an answer: the entries of
the property's tables, each label once and in their order, that start with the
word at that place in lower case. Each replaces the word, which is what stands
between the offsets of the range, and ends at the cursor. -/
theorem complete_exact (d : Declaration) (hproperty : IsAscii d.property.toList)
    (hseparated : ¬": ".toList <:+: d.property.toList) (hvalue : IsAscii d.value.toList)
    (hsize : unitLength d.sheet < UInt32.size) {k : Nat} (hk : k ≤ d.value.toList.length) :
    ∃ word items range, IsLastWord (d.value.toList.take k) word ∧
      complete d (d.positionAt (d.mapOffset (k + 1))) = .ok items ∧
      items.Pairwise (fun a b =>
        rank (tables d.property) a.label < rank (tables d.property) b.label) ∧
      (∀ item, item ∈ items ↔
        (tables d.property).find? (fun entry => entry.1 = item.label) =
            some (item.label, item.kind) ∧
          lowerAscii word <+: item.label.toList ∧ item.range = range) ∧
      d.offsetAt range.stop = d.mapOffset (k + 1) ∧
      d.offsetAt range.start + word.length = d.mapOffset (k + 1) ∧
      slice d.sheet (d.offsetAt range.start) (d.offsetAt range.stop) = .ok word := by
  have h : d.Separable := ⟨hproperty, hseparated⟩
  have hunits : unitLength d.value.toList = d.value.toList.length := unitLength_of_isAscii hvalue
  have hback : ∀ place ≤ d.value.toList.length,
      d.offsetAt (d.positionAt (d.valueStart + place)) = d.valueStart + place := by
    intro place hplace
    rw [← mapOffset_succ]
    exact offsetAt_positionAt_mapOffset h hsize (hunits.symm ▸ hplace)
  -- the value up to the cursor, and the word at its end
  obtain ⟨front, hfront⟩ := List.rtakeWhile_suffix isWordChar (d.value.toList.take k)
  have hlength := congrArg List.length hfront
  rw [List.length_append, List.length_take, Nat.min_eq_left hk] at hlength
  generalize hword : (d.value.toList.take k).rtakeWhile isWordChar = word at hfront hlength
  have hparts : d.value.toList = front ++ word ++ d.value.toList.drop k := by
    rw [hfront, List.take_append_drop]
  have hcursor : d.offsetAt (d.positionAt (d.mapOffset (k + 1))) =
      d.valueStart + front.length + word.length := by
    rw [mapOffset_succ, hback k hk, Nat.add_assoc, hlength]
  have hstart := hback front.length (by omega)
  refine ⟨word, _, ⟨d.positionAt (d.valueStart + front.length), _⟩,
    hword ▸ isLastWord_rtakeWhile _, complete_eq h hvalue hparts (hfront.symm ▸ hword) hcursor,
    pairwise_suggestions _ _ _, fun item => mem_suggestions_iff, ?_, ?_, ?_⟩
  · rw [mapOffset_succ, hback k hk]
  · rw [hstart, mapOffset_succ, Nat.add_assoc, hlength]
  · rw [hstart, hcursor]
    exact slice_value h hvalue hparts

/-- The value has two lines and a separator of its own. The word is the second
line, in whose place a color and a keyword of every property are suggested. -/
theorem complete_exact_twoLines :
    let d : Declaration := ⟨"color", "a: b\nRe"⟩
    IsAscii d.property.toList ∧ ¬": ".toList <:+: d.property.toList ∧ IsAscii d.value.toList ∧
      unitLength d.sheet < UInt32.size ∧ 7 ≤ d.value.toList.length ∧
      ∃ items range, complete d (d.positionAt (d.mapOffset 8)) = .ok items ∧
        ⟨"rebeccapurple", .color, range⟩ ∈ items ∧ ⟨"revert", .keyword, range⟩ ∈ items ∧
        (∀ item ∈ items, "re".toList <+: item.label.toList) ∧
        d.offsetAt range.start = d.mapOffset 6 ∧ d.offsetAt range.stop = d.mapOffset 8 ∧
        slice d.sheet (d.offsetAt range.start) (d.offsetAt range.stop) = .ok "Re".toList := by
  intro d
  have hproperty : IsAscii d.property.toList := by decide
  have hseparated : ¬": ".toList <:+: d.property.toList := by decide
  have hvalue : IsAscii d.value.toList := by decide
  have hsize : unitLength d.sheet < UInt32.size := by decide
  have hlength : 7 ≤ d.value.toList.length := by decide
  obtain ⟨word, items, range, hword, hitems, -, hmem, hstop, hstart, hslice⟩ :=
    complete_exact d hproperty hseparated hvalue hsize hlength
  have hlast : word = "Re".toList := (hword.eq (isLastWord_rtakeWhile _)).trans (by decide)
  subst hlast
  have hcolor : (tables d.property).find? (fun entry => entry.1 = "rebeccapurple") =
      some ("rebeccapurple", .color) := by decide
  have hkeyword : (tables d.property).find? (fun entry => entry.1 = "revert") =
      some ("revert", .keyword) := by decide
  have hbefore : d.mapOffset 8 = d.mapOffset 6 + "Re".toList.length := by decide
  exact ⟨hproperty, hseparated, hvalue, hsize, hlength, items, range, hitems,
    (hmem ⟨"rebeccapurple", .color, range⟩).2
      ⟨hcolor, (by decide : _ <+: "rebeccapurple".toList), rfl⟩,
    (hmem ⟨"revert", .keyword, range⟩).2 ⟨hkeyword, (by decide : _ <+: "revert".toList), rfl⟩,
    fun item hitem => ((hmem item).1 hitem).2.1, Nat.add_right_cancel (hstart.trans hbefore),
    hstop, hslice⟩

end Declaration

end StyleSense.Completion
