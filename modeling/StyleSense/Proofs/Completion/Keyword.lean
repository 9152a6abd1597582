/-
# The word before the cursor

A value is completed in a sheet of its own, to which offsets in the source are
mapped. Where the sheet is plain, the mapping is exact: a cursor after so many
characters of the value lies behind as many in the sheet, and what a suggestion
replaces is the longest run of word characters before it.

Columns have 32 bits, but a property may be longer than that. Then the cursor is
cut off to a column before the value, where nothing is suggested, so the length
of the property is not bounded here.
-/

import Mathlib.Data.List.DropRight
import StyleSense.Completion.Keyword
import StyleSense.Proofs.Text.Cuts
import StyleSense.Proofs.Text.Lines

namespace StyleSense.Completion

open StyleSense.Text

theorem afterLastBreak?_concat (byte : Nat) (cs : List Char) (c : Char) :
    afterLastBreak? byte (cs ++ [c]) =
      if isWordChar c then afterLastBreak? byte cs else some (byte + byteLength cs + 1) := by
  induction cs generalizing byte with
  | nil =>
      rw [List.nil_append, afterLastBreak?, afterLastBreak?, byteLength_nil]
      rfl
  | cons first cs ih =>
      rw [List.cons_append, afterLastBreak?, ih, byteLength_cons, afterLastBreak?,
        ← Nat.add_assoc byte]
      by_cases hc : isWordChar c = true
      · rw [if_pos hc, if_pos hc]
      · rw [if_neg hc, if_neg hc]

/-- In ASCII the bytes after the last break are those of the last word. -/
theorem afterLastBreak?_add {cs : List Char} (h : IsAscii cs) (byte : Nat) :
    (afterLastBreak? byte cs).getD byte + (cs.rtakeWhile isWordChar).length =
      byte + cs.length := by
  induction cs using List.reverseRecOn with
  | nil => rfl
  | append_singleton cs c ih =>
      obtain ⟨hcs, -⟩ := isAscii_append.1 h
      rw [afterLastBreak?_concat, List.rtakeWhile_concat, List.length_append, ← Nat.add_assoc byte,
        ← ih hcs, byteLength_of_isAscii hcs]
      split
      · rw [List.length_append]
        exact (Nat.add_assoc ..).symm
      · rw [ih hcs]
        rfl

theorem toList_separator : ": ".toList = [':', ' '] := rfl

/-- The separator before a value is found if the property has none of its own. -/
theorem findBytes?_separator {property : List Char} (hascii : IsAscii property)
    (h : ¬": ".toList <:+: property) (rest : List Char) :
    findBytes? ": ".toList (property ++ (": ".toList ++ rest)) = some property.length := by
  rw [toList_separator] at h ⊢
  induction property with
  | nil => rfl
  | cons c property ih =>
      obtain ⟨hc, hproperty⟩ := List.forall_mem_cons.1 hascii
      have hnot : [':', ' '].isPrefixOf (c :: property ++ ([':', ' '] ++ rest)) = false := by
        rw [← Bool.not_eq_true, List.isPrefixOf_iff_prefix]
        intro hprefix
        -- a separator cannot begin in the property and end in the one after it
        cases property with
        | nil =>
            have hcolon := (List.cons_prefix_cons.1 (List.cons_prefix_cons.1 hprefix).2).1
            exact absurd hcolon (by decide)
        | cons d property =>
            refine h (List.IsPrefix.isInfix ?_)
            obtain ⟨hfirst, hrest⟩ := List.cons_prefix_cons.1 hprefix
            obtain ⟨hsecond, -⟩ := List.cons_prefix_cons.1 hrest
            exact List.cons_prefix_cons.2 ⟨hfirst, List.cons_prefix_cons.2
              ⟨hsecond, List.nil_prefix⟩⟩
      rw [List.cons_append] at hnot ⊢
      rw [findBytes?, if_neg (by rw [hnot]; exact Bool.false_ne_true),
        ih hproperty fun hpart => h (hpart.trans (List.suffix_cons c property).isInfix),
        Option.map_some, utf8Size_of_lt hc, List.length_cons, Nat.add_comm]

namespace Declaration

/-- Declarations whose first separator is the one before the value. -/
structure Separable (d : Declaration) : Prop where
  property_ascii : IsAscii d.property.toList
  separated : ¬": ".toList <:+: d.property.toList

/-- Declarations in ASCII, on one line, whose first separator is the one before
the value. -/
structure Plain (d : Declaration) : Prop where
  property_ascii : IsAscii d.property.toList
  value_ascii : IsAscii d.value.toList
  property_line : '\n' ∉ d.property.toList
  value_line : '\n' ∉ d.value.toList
  separated : ¬": ".toList <:+: d.property.toList

theorem Plain.separable {d : Declaration} (h : d.Plain) : d.Separable :=
  ⟨h.property_ascii, h.separated⟩

variable {d : Declaration}

theorem length_sheetHead : sheetHead.length = 7 := rfl

theorem toList_sheetTail : sheetTail = [';', '\n', '\x7d'] := rfl

/-- What stands before the value. -/
def lead (d : Declaration) : List Char :=
  sheetHead ++ d.property.toList ++ ": ".toList

/-- The line of the declaration. -/
def line (d : Declaration) : List Char :=
  d.property.toList ++ ": ".toList ++ d.value.toList ++ [';']

theorem sheet_eq_lead (d : Declaration) : d.sheet = d.lead ++ d.value.toList ++ sheetTail := rfl

theorem sheet_eq_line (d : Declaration) : d.sheet = sheetHead ++ d.line ++ ['\n', '\x7d'] := by
  rw [sheet, line, toList_sheetTail]
  simp only [List.append_assoc, List.cons_append, List.nil_append]

theorem isAscii_lead (h : d.Separable) : IsAscii d.lead := by
  rw [lead, isAscii_append, isAscii_append]
  exact ⟨⟨by decide, h.property_ascii⟩, by decide⟩

theorem length_lead (d : Declaration) : d.lead.length = d.property.toList.length + 9 := by
  rw [lead, List.length_append, List.length_append, length_sheetHead, toList_separator]
  simp only [List.length_cons, List.length_nil]
  omega

theorem separator_eq (h : d.Separable) : d.separator = d.property.toList.length + 7 := by
  have hdrop : d.sheet.drop sheetHead.length =
      d.property.toList ++ (": ".toList ++ (d.value.toList ++ sheetTail)) := by
    rw [sheet, List.append_assoc, List.append_assoc, List.append_assoc, List.drop_left]
  rw [separator, hdrop, findBytes?_separator h.property_ascii h.separated, length_sheetHead,
    Option.getD_some, Nat.add_comm]

theorem valueStart_eq (h : d.Separable) : d.valueStart = d.lead.length := by
  rw [valueStart, separator_eq h, length_lead]

theorem valueStart_add_le (h : d.Separable) (hvalue : IsAscii d.value.toList) :
    d.valueStart + d.value.toList.length ≤ byteLength d.sheet := by
  rw [sheet_eq_lead, byteLength_append, byteLength_append, byteLength_of_isAscii (isAscii_lead h),
    byteLength_of_isAscii hvalue, valueStart_eq h]
  exact Nat.le_add_right _ _

/-- A part of the value is cut out of the sheet. -/
theorem slice_value (h : d.Separable) (hascii : IsAscii d.value.toList)
    {before part after : List Char} (hvalue : d.value.toList = before ++ part ++ after) :
    slice d.sheet (d.valueStart + before.length)
      (d.valueStart + before.length + part.length) = .ok part := by
  rw [hvalue, isAscii_append, isAscii_append] at hascii
  obtain ⟨⟨hbefore, hpart⟩, -⟩ := hascii
  refine slice_eq_ok (slice?_eq_some_iff.2 ⟨d.lead ++ before, after ++ sheetTail, ?_, ?_, ?_⟩)
  · rw [sheet_eq_lead, hvalue]
    simp only [List.append_assoc]
  · rw [byteLength_of_isAscii (isAscii_append.2 ⟨isAscii_lead h, hbefore⟩), List.length_append,
      valueStart_eq h]
  · rw [byteLength_of_isAscii (isAscii_append.2 ⟨isAscii_append.2 ⟨isAscii_lead h, hbefore⟩,
      hpart⟩), List.length_append, List.length_append, valueStart_eq h]

section

variable {column : Nat}

theorem not_mem_line (h : d.Plain) : '\n' ∉ d.line := by
  rw [line, List.mem_append, List.mem_append, List.mem_append]
  rintro (((hmem | hmem) | hmem) | hmem)
  · exact h.property_line hmem
  · exact absurd hmem (by decide)
  · exact h.value_line hmem
  · exact absurd hmem (by decide)

theorem unitLength_line (h : d.Plain) : unitLength d.line = d.line.length := by
  refine unitLength_of_isAscii ?_
  rw [line, isAscii_append, isAscii_append, isAscii_append]
  exact ⟨⟨⟨h.property_ascii, by decide⟩, h.value_ascii⟩, by decide⟩

/-- The declaration stands on the second line, which starts behind the head. -/
theorem lines_eq (h : d.Plain) (hcolumn : column ≤ d.line.length) :
    d.lines.lineOf (7 + column) = 1 ∧ d.lines.startOf (7 + column) = 7 ∧
      7 + column ≤ d.lines.size := by
  have hto : 7 + column ≤ unitLength (sheetHead ++ d.line) := by
    rw [LineIndex.unitLength_append, unitLength_line h]
    exact Nat.add_le_add_left hcolumn 7
  have hfrom : unitLength sheetHead ≤ 7 + column := Nat.le_add_right 7 column
  rw [lines, sheet_eq_line]
  refine ⟨LineIndex.lineOf_eq (not_mem_line h) hfrom hto,
    LineIndex.startOf_eq (not_mem_line h) hfrom hto, ?_⟩
  show _ ≤ unitLength _
  rw [LineIndex.unitLength_append]
  omega

theorem positionAt_eq (h : d.Plain) (hcolumn : column ≤ d.line.length) :
    d.positionAt (7 + column) = .ofNats 1 column := by
  obtain ⟨hline, hstart, hsize⟩ := lines_eq h hcolumn
  rw [positionAt, LineIndex.positionAt_of_le hsize, hline, hstart, Nat.add_sub_cancel_left]

/-- A position on the line leads back to its offset, but for what 32 bits cut off
the column. -/
theorem offsetAt_positionAt (h : d.Plain) (hcolumn : column ≤ d.line.length) :
    d.offsetAt (d.positionAt (7 + column)) = 7 + column % UInt32.size := by
  obtain ⟨hline, hstart, hsize⟩ := lines_eq h hcolumn
  rw [offsetAt, positionAt, LineIndex.offsetAt_positionAt_eq_add_mod (by rw [hline]; decide) hsize,
    hstart, Nat.add_sub_cancel_left]

theorem length_line (d : Declaration) :
    d.line.length = d.property.toList.length + d.value.toList.length + 3 := by
  rw [line, toList_separator]
  simp only [List.length_append, List.length_cons, List.length_nil]
  omega

/-- The column of a cursor that is so many characters into the literal. -/
theorem mapOffset_eq (h : d.Plain) (inside : Nat) :
    d.mapOffset inside = 7 + (d.property.toList.length + 1 + inside) := by
  rw [mapOffset, separator_eq h.separable]
  omega

end

/-- A cursor that is found in the value or behind it is in its place there: 32
bits cut nothing off its column. -/
theorem offsetAt_mapOffset (h : d.Plain) {inside : Nat}
    (hinside : inside ≤ d.value.toList.length + 1)
    (hsize : d.value.toList.length < UInt32.size)
    (hfound : d.valueStart ≤ d.offsetAt (d.positionAt (d.mapOffset inside))) :
    0 < inside ∧ d.property.toList.length + 1 + inside < UInt32.size ∧
      d.offsetAt (d.positionAt (d.mapOffset inside)) = d.valueStart + (inside - 1) := by
  have hcolumn : d.property.toList.length + 1 + inside ≤ d.line.length := by
    rw [length_line]
    omega
  rw [mapOffset_eq h, offsetAt_positionAt h hcolumn, valueStart_eq h.separable,
    length_lead] at hfound ⊢
  rcases Nat.lt_or_ge (d.property.toList.length + 1 + inside) UInt32.size with hlt | hge
  · rw [Nat.mod_eq_of_lt hlt] at hfound ⊢
    exact ⟨by omega, hlt, by omega⟩
  · -- the rest of the column would be before the value
    have hmod := Nat.mod_le (d.property.toList.length + 1 + inside - UInt32.size) UInt32.size
    rw [Nat.mod_eq_sub_mod hge] at hfound
    omega

end Declaration

/-- What may be suggested in a range for the word that stands there. -/
def suggestions (property : String) (word : List Char) (range : Range) : List Suggestion :=
  (candidates property).filterMap fun (label, kind) =>
    if (lowerAscii word).isPrefixOf label.toList then some ⟨label, kind, range⟩ else none

theorem mem_suggestions {property : String} {word : List Char} {range : Range} {item : Suggestion} :
    item ∈ suggestions property word range ↔
      (item.label, item.kind) ∈ candidates property ∧ lowerAscii word <+: item.label.toList ∧
        item.range = range := by
  rw [suggestions, List.mem_filterMap]
  constructor
  · rintro ⟨⟨label, kind⟩, hmem, hmatch⟩
    obtain ⟨hstarts, heq⟩ := Option.ite_none_right_eq_some.1 hmatch
    cases heq
    exact ⟨hmem, List.isPrefixOf_iff_prefix.1 hstarts, rfl⟩
  · rintro ⟨hmem, hstarts, rfl⟩
    exact ⟨_, hmem, if_pos (List.isPrefixOf_iff_prefix.2 hstarts)⟩

/-- Behind a word of the value the suggestions are those for the word, in its
place. -/
theorem complete_eq {d : Declaration} (h : d.Separable) (hascii : IsAscii d.value.toList)
    {p : Position} {front word rest : List Char} (hvalue : d.value.toList = front ++ word ++ rest)
    (hword : (front ++ word).rtakeWhile isWordChar = word)
    (hoffset : d.offsetAt p = d.valueStart + front.length + word.length) :
    complete d p =
      .ok (suggestions d.property word ⟨d.positionAt (d.valueStart + front.length), p⟩) := by
  have hcut : IsAscii (front ++ word) := (isAscii_append.1 (hvalue ▸ hascii)).1
  have hsheet := d.valueStart_add_le h hascii
  rw [hvalue, List.length_append, List.length_append] at hsheet
  have hend : min (d.offsetAt p) (byteLength d.sheet) =
      d.valueStart + front.length + word.length := by
    omega
  have hbefore : slice d.sheet d.valueStart (d.valueStart + front.length + word.length) =
      .ok (front ++ word) := by
    have hpart := d.slice_value h hascii (show _ = [] ++ (front ++ word) ++ _ from hvalue)
    rwa [List.length_nil, Nat.add_zero, List.length_append, ← Nat.add_assoc] at hpart
  have hstart : (afterLastBreak? d.valueStart (front ++ word)).getD d.valueStart =
      d.valueStart + front.length := by
    have hadd := afterLastBreak?_add hcut d.valueStart
    rw [hword, List.length_append] at hadd
    omega
  have hguard : ¬(decide (d.valueStart + front.length + word.length < d.valueStart) ||
      !isBoundary d.sheet (d.valueStart + front.length + word.length)) = true := by
    rw [(exists_slice_iff.1 ⟨_, hbefore⟩).stops, Bool.not_true, Bool.or_false, decide_eq_true_eq]
    omega
  have hbind : ∀ (text : List Char) (next : List Char → Except CutError (List Suggestion)),
      (Except.ok text >>= next) = next text := fun _ _ => rfl
  rw [complete]
  dsimp only
  rw [hend, if_neg hguard, hbefore, hbind, hstart, d.slice_value h hascii hvalue, hbind]
  rfl

/-- The suggestions for a word that ends at the cursor are the candidates that
start with it. -/
theorem mem_complete_word {d : Declaration} (h : d.Plain) {p : Position}
    {front word rest : List Char} (hvalue : d.value.toList = front ++ word ++ rest)
    (hword : (front ++ word).rtakeWhile isWordChar = word)
    (hoffset : d.offsetAt p = d.valueStart + front.length + word.length)
    {items : List Suggestion} {item : Suggestion} (hitems : complete d p = .ok items)
    (hitem : item ∈ items) :
    item.range = ⟨d.positionAt (d.valueStart + front.length), p⟩ ∧
      lowerAscii word <+: item.label.toList := by
  rw [complete_eq h.separable h.value_ascii hvalue hword hoffset] at hitems
  cases hitems
  obtain ⟨-, hstarts, hrange⟩ := mem_suggestions.1 hitem
  exact ⟨hrange, hstarts⟩

/-- What is suggested to a cursor that is so many characters into the literal,
counted from the opening quote on. The suggestions are for the word before the
cursor, and replace it. -/
theorem mem_complete {d : Declaration} (h : d.Plain) {inside : Nat}
    (hinside : inside ≤ d.value.toList.length + 1)
    (hsize : d.value.toList.length < UInt32.size) {cursor : Position}
    (hcursor : d.positionAt (d.mapOffset inside) = cursor) {word : List Char}
    (hword : (d.value.toList.take (inside - 1)).rtakeWhile isWordChar = word)
    {items : List Suggestion} {item : Suggestion} (hitems : complete d cursor = .ok items)
    (hitem : item ∈ items) :
    0 < inside ∧ item.range.stop = cursor ∧ item.range.start.line = cursor.line ∧
      item.range.start.character.toNat + word.length = cursor.character.toNat ∧
      lowerAscii word <+: item.label.toList := by
  have hfound : d.valueStart ≤ d.offsetAt cursor := by
    by_contra hlt
    have hguard : (min (d.offsetAt cursor) (byteLength d.sheet) < d.valueStart ||
        !isBoundary d.sheet (min (d.offsetAt cursor) (byteLength d.sheet))) = true := by
      rw [Bool.or_eq_true, decide_eq_true_eq]
      exact .inl (Nat.lt_of_le_of_lt (Nat.min_le_left _ _) (Nat.not_le.1 hlt))
    rw [complete] at hitems
    dsimp only at hitems
    rw [if_pos hguard] at hitems
    cases hitems
    exact absurd hitem List.not_mem_nil
  rw [← hcursor] at hfound
  obtain ⟨hpos, hcolumn, hoffset⟩ := d.offsetAt_mapOffset h hinside hsize hfound
  rw [hcursor] at hoffset
  -- the value up to the cursor, and the word at its end
  obtain ⟨front, hfront⟩ : word <:+ d.value.toList.take (inside - 1) :=
    hword ▸ List.rtakeWhile_suffix _ _
  have hvalue : d.value.toList = front ++ word ++ d.value.toList.drop (inside - 1) := by
    rw [hfront, List.take_append_drop]
  have hlength : front.length + word.length = inside - 1 := by
    rw [← List.length_append, hfront, List.length_take]
    omega
  obtain ⟨hrange, hlabel⟩ := mem_complete_word h hvalue (hfront.symm ▸ hword)
    (by rw [hoffset]; omega) hitems hitem
  have hline : d.property.toList.length + 1 + inside ≤ d.line.length := by
    rw [d.length_line]
    omega
  have hstart :
      d.valueStart + front.length = 7 + (d.property.toList.length + 2 + front.length) := by
    rw [d.valueStart_eq h.separable, d.length_lead]
    omega
  rw [hrange, hstart, d.positionAt_eq h (by omega), ← hcursor, d.mapOffset_eq h,
    d.positionAt_eq h hline]
  refine ⟨hpos, rfl, rfl, ?_, hlabel⟩
  rw [Position.character_ofNats 1 (by omega), Position.character_ofNats 1 hcolumn]
  omega

end StyleSense.Completion
