/-
# Where completion breaks off

Two parts are cut out of a sheet: the value up to the cursor, and the word at
its end. The value starts behind a separator that every sheet has, and a cursor
between two characters ends it, so the first cut is always possible. The word is
taken to start one byte behind the start of the last character that belongs to
no word, which is inside that character if it has more bytes than one.

So completion breaks off exactly behind such a character. Nothing is assumed of
property, value and cursor: they may be any texts and any position.
-/

import StyleSense.Completion.Keyword
import StyleSense.Proofs.Completion.Keyword
import StyleSense.Proofs.Text.Cuts

namespace StyleSense.Completion

open StyleSense.Text

theorem findBytes?_eq_some {word cs : List Char} {n : Nat} (h : findBytes? word cs = some n) :
    ∃ before after, cs = before ++ word ++ after ∧ byteLength before = n := by
  induction cs generalizing n with
  | nil =>
      rw [findBytes?] at h
      split at h
      next hword =>
        cases h
        exact ⟨[], [], by rw [List.isEmpty_iff.1 hword]; rfl, rfl⟩
      next => cases h
  | cons c cs ih =>
      rw [findBytes?] at h
      split at h
      next hprefix =>
        cases h
        obtain ⟨after, hafter⟩ := List.isPrefixOf_iff_prefix.1 hprefix
        exact ⟨[], after, hafter.symm, rfl⟩
      next =>
        obtain ⟨m, hm, rfl⟩ := Option.map_eq_some_iff.1 h
        obtain ⟨before, after, rfl, rfl⟩ := ih hm
        exact ⟨c :: before, after, rfl, byteLength_cons c before⟩

theorem exists_findBytes? (before word after : List Char) :
    ∃ n, findBytes? word (before ++ (word ++ after)) = some n := by
  induction before with
  | nil =>
      refine ⟨0, ?_⟩
      rw [List.nil_append]
      cases hcs : word ++ after with
      | nil => rw [findBytes?, if_pos (by rw [(List.append_eq_nil_iff.1 hcs).1]; rfl)]
      | cons c cs =>
          rw [findBytes?, if_pos (List.isPrefixOf_iff_prefix.2 ⟨after, hcs⟩)]
  | cons c before ih =>
      obtain ⟨n, hn⟩ := ih
      rw [List.cons_append, findBytes?, hn]
      split
      · exact ⟨0, rfl⟩
      · exact ⟨c.utf8Size + n, rfl⟩

/-- The last character that belongs to no word. -/
def lastBreak? (cs : List Char) : Option Char :=
  cs.reverse.find? fun c => !isWordChar c

/-- What stands before and behind the last character that belongs to no word. -/
theorem lastBreak?_eq_some {cs : List Char} {c : Char} (h : lastBreak? cs = some c) :
    ∃ front word, cs = front ++ [c] ++ word ∧ isWordChar c = false ∧
      ∀ d ∈ word, isWordChar d = true := by
  obtain ⟨hc, tail, lead, hcs, htail⟩ := List.find?_eq_some_iff_append.1 h
  refine ⟨lead.reverse, tail.reverse, ?_, by simpa using hc, fun d hd => ?_⟩
  · rw [← List.reverse_reverse cs, hcs, List.reverse_append, List.reverse_cons]
  · simpa using htail d (List.mem_reverse.1 hd)

theorem isWordChar_of_lastBreak?_eq_none {cs : List Char} (h : lastBreak? cs = none) :
    ∀ c ∈ cs, isWordChar c = true := by
  intro c hc
  simpa using List.find?_eq_none.1 h c (List.mem_reverse.2 hc)

theorem afterLastBreak?_append_word (byte : Nat) (cs : List Char) {word : List Char}
    (h : ∀ c ∈ word, isWordChar c = true) :
    afterLastBreak? byte (cs ++ word) = afterLastBreak? byte cs := by
  induction word using List.reverseRecOn with
  | nil => rw [List.append_nil]
  | append_singleton word c ih =>
      obtain ⟨hword, hc⟩ := List.forall_mem_append.1 h
      rw [← List.append_assoc, afterLastBreak?_concat, if_pos (hc c List.mem_cons_self), ih hword]

namespace Declaration

/-- The byte at which a sheet is cut for a cursor. -/
def cutAt (d : Declaration) (p : Position) : Nat :=
  min (d.offsetAt p) (byteLength d.sheet)

/-- Whether a cursor is in the value or behind it, and between two characters. -/
def admits (d : Declaration) (p : Position) : Bool :=
  !(d.cutAt p < d.valueStart || !isBoundary d.sheet (d.cutAt p))

/-- The value up to a cursor. -/
def typed? (d : Declaration) (p : Position) : Option (List Char) :=
  if d.admits p then slice? d.sheet d.valueStart (d.cutAt p) else none

/-- Where the word at the end of a part of the value is taken to start. -/
def wordStart (d : Declaration) (before : List Char) : Nat :=
  (afterLastBreak? d.valueStart before).getD d.valueStart

/-- The bytes between which a sheet is cut for a cursor. -/
def cuts (d : Declaration) (p : Position) : List (Nat × Nat) :=
  if d.admits p then
    (d.valueStart, d.cutAt p) ::
      ((d.typed? p).map fun before => (d.wordStart before, d.cutAt p)).toList
  else []

variable {d : Declaration} {p : Position} {before : List Char}

/-- The value of a sheet starts behind a separator. -/
theorem isBoundary_valueStart (d : Declaration) : isBoundary d.sheet d.valueStart = true := by
  have hdrop : d.sheet.drop sheetHead.length =
      d.property.toList ++ (": ".toList ++ (d.value.toList ++ sheetTail)) := by
    rw [sheet, List.append_assoc, List.append_assoc, List.append_assoc, List.drop_left]
  obtain ⟨n, hn⟩ := exists_findBytes? d.property.toList ": ".toList (d.value.toList ++ sheetTail)
  obtain ⟨lead, after, heq, rfl⟩ := findBytes?_eq_some hn
  refine isBoundary_iff.2 ⟨sheetHead ++ lead ++ ": ".toList, after, ?_, ?_⟩
  · rw [← List.take_append_drop sheetHead.length d.sheet, hdrop, heq, sheet, List.append_assoc,
      List.append_assoc, List.append_assoc, List.take_left]
    simp only [List.append_assoc]
  · rw [byteLength_append, byteLength_append, valueStart, separator, hdrop, hn, Option.getD_some]
    rfl

/-- The value up to a cursor can be cut out. -/
theorem cuttable_typed (h : d.admits p = true) : Cuttable d.sheet d.valueStart (d.cutAt p) := by
  rw [admits, Bool.not_eq_true', Bool.or_eq_false_iff, decide_eq_false_iff_not, Nat.not_lt,
    Bool.not_eq_false'] at h
  exact ⟨h.1, Nat.min_le_right _ _, d.isBoundary_valueStart, h.2⟩

theorem exists_typed? (h : d.admits p = true) : ∃ before, d.typed? p = some before := by
  obtain ⟨before, hbefore⟩ := exists_slice_iff.2 (cuttable_typed h)
  refine ⟨before, ?_⟩
  rw [typed?, if_pos h]
  rw [slice] at hbefore
  split at hbefore
  next hpart => cases hbefore; exact hpart
  next => cases hbefore

theorem admits_of_typed? (h : d.typed? p = some before) : d.admits p = true := by
  by_contra hnot
  rw [typed?, if_neg hnot] at h
  cases h

/-- The last word can be cut out exactly if the character before it takes one
byte. -/
theorem cuttable_word (h : d.typed? p = some before) :
    Cuttable d.sheet (d.wordStart before) (d.cutAt p) ↔
      ∀ c, lastBreak? before = some c → c.toNat < 128 := by
  have hadmits := admits_of_typed? h
  have hvalue := cuttable_typed hadmits
  rw [typed?, if_pos hadmits] at h
  obtain ⟨lead, after, hsheet, hlead, hstop⟩ := slice?_eq_some_iff.1 h
  cases hbreak : lastBreak? before with
  | none =>
      have hstart : d.wordStart before = d.valueStart := by
        have hword := isWordChar_of_lastBreak?_eq_none hbreak
        rw [wordStart, ← List.nil_append before, afterLastBreak?_append_word _ [] hword]
        rfl
      rw [hstart]
      exact ⟨fun _ => nofun, fun _ => hvalue⟩
  | some c =>
      obtain ⟨front, word, rfl, hc, hword⟩ := lastBreak?_eq_some hbreak
      have hstart : d.wordStart (front ++ [c] ++ word) = byteLength (lead ++ front) + 1 := by
        rw [wordStart, afterLastBreak?_append_word _ _ hword, afterLastBreak?_concat,
          if_neg (by rw [hc]; exact Bool.false_ne_true), Option.getD_some, byteLength_append, hlead]
      have hparts : d.sheet = lead ++ front ++ c :: (word ++ after) := by
        rw [hsheet]
        simp only [List.append_assoc, List.cons_append, List.nil_append]
      have hstop' : d.cutAt p = byteLength (lead ++ front) + c.utf8Size + byteLength word := by
        rw [← hstop]
        simp only [byteLength_append, byteLength_cons, byteLength_nil]
        omega
      have hpos := c.utf8Size_pos
      rw [hstart]
      constructor
      · rintro hcut c' hc'
        cases hc'
        rw [← utf8Size_eq_one_iff]
        by_contra hsize
        have hinside : isBoundary (lead ++ front ++ c :: (word ++ after))
            (byteLength (lead ++ front) + 1) = false :=
          not_isBoundary_inside (Nat.lt_succ_self _) (by omega)
        rw [← hparts, hcut.starts] at hinside
        cases hinside
      · intro hascii
        have hsize : c.utf8Size = 1 := utf8Size_eq_one_iff.2 (hascii c rfl)
        refine ⟨by omega, hvalue.inside, isBoundary_iff.2 ⟨lead ++ front ++ [c], word ++ after, ?_,
          ?_⟩, hvalue.stops⟩
        · rw [hparts, List.append_cons]
        · rw [byteLength_append, byteLength_cons, byteLength_nil, hsize]

end Declaration

variable {d : Declaration} {p : Position}

theorem complete_of_not_admits (h : d.admits p = false) : complete d p = .ok [] := by
  rw [Declaration.admits, Bool.not_eq_false'] at h
  exact if_pos h

/-- There are suggestions exactly if the last word can be cut out. -/
theorem exists_complete_iff {before : List Char} (h : d.typed? p = some before) :
    (∃ items, complete d p = .ok items) ↔ Cuttable d.sheet (d.wordStart before) (d.cutAt p) := by
  have hadmits := Declaration.admits_of_typed? h
  have hvalue : slice d.sheet d.valueStart (d.cutAt p) = .ok before := by
    rw [Declaration.typed?, if_pos hadmits] at h
    exact slice_eq_ok h
  rw [Declaration.admits, Bool.not_eq_true'] at hadmits
  obtain ⟨offered, hcomplete⟩ : ∃ offered : List Char → List Suggestion,
      complete d p = (slice d.sheet (d.wordStart before) (d.cutAt p)).map offered := by
    rw [complete]
    dsimp only
    rw [if_neg (by rw [← Declaration.cutAt, hadmits]; exact Bool.false_ne_true),
      ← Declaration.cutAt, hvalue]
    exact ⟨_, rfl⟩
  rw [hcomplete, ← exists_slice_iff]
  cases slice d.sheet (d.wordStart before) (d.cutAt p) with
  | error e =>
      constructor <;>
      · rintro ⟨_, hok⟩
        cases hok
  | ok word => exact ⟨fun _ => ⟨word, rfl⟩, fun _ => ⟨_, rfl⟩⟩

/-- A list of suggestions is given, and whatever is cut out of the sheet on the
way can be cut out, exactly if the last character before the cursor that belongs
to no word is in ASCII, if there is one. -/
theorem complete_safe_iff (d : Declaration) (p : Position) :
    ((∃ items, complete d p = .ok items) ∧
        ∀ cut ∈ d.cuts p, Cuttable d.sheet cut.1 cut.2) ↔
      ∀ c, (d.typed? p).bind lastBreak? = some c → c.toNat < 128 := by
  cases hadmits : d.admits p with
  | false =>
      have htyped : d.typed? p = none := if_neg (by rw [hadmits]; exact Bool.false_ne_true)
      have hcuts : d.cuts p = [] := if_neg (by rw [hadmits]; exact Bool.false_ne_true)
      rw [htyped, hcuts, complete_of_not_admits hadmits]
      exact ⟨fun _ => nofun, fun _ => ⟨⟨[], rfl⟩, List.forall_mem_nil _⟩⟩
  | true =>
      obtain ⟨before, htyped⟩ := Declaration.exists_typed? hadmits
      have hcuts : d.cuts p = [(d.valueStart, d.cutAt p), (d.wordStart before, d.cutAt p)] := by
        rw [Declaration.cuts, if_pos hadmits, htyped]
        rfl
      rw [htyped, Option.bind_some, ← Declaration.cuttable_word htyped, hcuts,
        exists_complete_iff htyped, List.forall_mem_cons, List.forall_mem_singleton]
      exact ⟨And.left, fun hword => ⟨hword, Declaration.cuttable_typed hadmits, hword⟩⟩

/-- Behind an accented letter the word would start inside of that letter. -/
theorem complete_behind_accent : complete ⟨"top", "équ"⟩ ⟨1, 8⟩ = .error .noBoundary := rfl

end StyleSense.Completion
