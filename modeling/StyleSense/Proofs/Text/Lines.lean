/-
# Laws of lines

The line of an offset is the last one that starts no later. From that and from
the order in which lines start it follows that a position leads back to its
offset, and that positions come in the order of offsets. Lines and columns are
numbers of 32 bits, so a text must have fewer than `UInt32.size` code units.
-/

import Mathlib.Data.List.Infix
import StyleSense.Text.LineIndex

namespace StyleSense.Text

namespace Position

variable {a b c : Position}

theorem notAfter_iff :
    a.notAfter b = true ↔
      a.line.toNat < b.line.toNat ∨
        a.line.toNat = b.line.toNat ∧ a.character.toNat ≤ b.character.toNat := by
  simp only [notAfter, Bool.or_eq_true, Bool.and_eq_true, decide_eq_true_eq,
    UInt32.lt_iff_toNat_lt, UInt32.le_iff_toNat_le, UInt32.toNat_inj]

theorem ext_toNat (hline : a.line.toNat = b.line.toNat)
    (hcharacter : a.character.toNat = b.character.toNat) : a = b := by
  obtain ⟨line, character⟩ := a
  obtain ⟨line', character'⟩ := b
  cases UInt32.toNat_inj.1 hline
  cases UInt32.toNat_inj.1 hcharacter
  rfl

theorem eq_of_notAfter (h : a.notAfter b = true) (h' : b.notAfter a = true) : a = b := by
  rw [notAfter_iff] at h h'
  exact ext_toNat (by omega) (by omega)

theorem notAfter_refl (a : Position) : a.notAfter a = true :=
  notAfter_iff.2 (.inr ⟨rfl, Nat.le_refl _⟩)

theorem notAfter_trans (hab : a.notAfter b = true) (hbc : b.notAfter c = true) :
    a.notAfter c = true := by
  rw [notAfter_iff] at hab hbc ⊢
  omega

theorem line_ofNats {line : Nat} (h : line < UInt32.size) (character : Nat) :
    (ofNats line character).line.toNat = line :=
  UInt32.toNat_ofNat_of_lt' h

theorem character_ofNats (line : Nat) {character : Nat} (h : character < UInt32.size) :
    (ofNats line character).character.toNat = character :=
  UInt32.toNat_ofNat_of_lt' h

end Position

section

variable {α : Type} {p q : α → Bool}

/-- What stands behind the leading elements of a kind is the last of them, where
one more element is put in front. -/
theorem getElem?_cons_length_takeWhile (p : α → Bool) (first : α) (xs : List α) :
    (first :: xs)[(xs.takeWhile p).length]? = some ((xs.takeWhile p).getLast?.getD first) := by
  induction xs generalizing first with
  | nil => rfl
  | cons x xs ih =>
      by_cases hx : p x = true
      · rw [List.takeWhile_cons_of_pos hx, List.length_cons, List.getElem?_cons_succ, ih x]
        cases xs.takeWhile p <;> simp [List.getLast?_cons]
      · rw [List.takeWhile_cons_of_neg hx]
        rfl

/-- The leading elements of a kind end before one that is not. -/
theorem not_of_getElem?_length_takeWhile {xs : List α} {x : α}
    (h : xs[(xs.takeWhile p).length]? = some x) : p x = false := by
  induction xs with
  | nil => simp at h
  | cons y ys ih =>
      by_cases hy : p y = true
      · rw [List.takeWhile_cons_of_pos hy, List.length_cons, List.getElem?_cons_succ] at h
        exact ih h
      · rw [List.takeWhile_cons_of_neg hy] at h
        obtain rfl : y = x := by simpa using h
        exact Bool.eq_false_iff.2 hy

/-- A wider kind has no fewer leading elements. -/
theorem length_takeWhile_le_of_imp (h : ∀ x, p x = true → q x = true) (xs : List α) :
    (xs.takeWhile p).length ≤ (xs.takeWhile q).length := by
  induction xs with
  | nil => exact Nat.le_refl _
  | cons x xs ih =>
      by_cases hx : p x = true
      · rw [List.takeWhile_cons_of_pos hx, List.takeWhile_cons_of_pos (h x hx)]
        exact Nat.succ_le_succ ih
      · rw [List.takeWhile_cons_of_neg hx]
        exact Nat.zero_le _

end

namespace LineIndex

/-- Lines start in order, and none starts past the end of the text. -/
structure Valid (lines : LineIndex) : Prop where
  increasing : lines.starts.Pairwise (· < ·)
  bounded : ∀ start ∈ lines.starts, start ≤ lines.size

theorem mem_startsFrom {offset start : Nat} {text : List Char}
    (h : start ∈ startsFrom offset text) :
    offset < start ∧ start ≤ offset + unitLength text := by
  induction text generalizing offset with
  | nil => exact absurd h List.not_mem_nil
  | cons c text ih =>
      have hwidth : 0 < unitWidth c := by
        unfold unitWidth
        split <;> omega
      have hlength : unitLength (c :: text) = unitWidth c + unitLength text := rfl
      have hrest : start ∈ startsFrom (offset + unitWidth c) text →
          offset < start ∧ start ≤ offset + unitLength (c :: text) := by
        intro hmem
        have := ih hmem
        omega
      by_cases hc : c = '\n'
      · rw [startsFrom, if_pos hc] at h
        rcases List.mem_cons.1 h with rfl | h
        · omega
        · exact hrest h
      · rw [startsFrom, if_neg hc] at h
        exact hrest h

theorem pairwise_startsFrom (offset : Nat) (text : List Char) :
    (startsFrom offset text).Pairwise (· < ·) := by
  induction text generalizing offset with
  | nil => exact List.Pairwise.nil
  | cons c text ih =>
      rw [startsFrom]
      split
      · exact List.pairwise_cons.2 ⟨fun start hmem => (mem_startsFrom hmem).1, ih _⟩
      · exact ih _

theorem valid_ofText (text : List Char) : (ofText text).Valid where
  increasing :=
    List.pairwise_cons.2 ⟨fun _ hmem => (mem_startsFrom hmem).1, pairwise_startsFrom 0 text⟩
  bounded start hmem := by
    rcases List.mem_cons.1 hmem with rfl | hmem
    · exact Nat.zero_le _
    · have := (mem_startsFrom hmem).2
      rwa [Nat.zero_add] at this

variable {lines : LineIndex} {offset : Nat}

/-- The line of an offset. -/
def lineOf (lines : LineIndex) (offset : Nat) : Nat :=
  (lines.later.takeWhile (· ≤ offset)).length

/-- Where the line of an offset starts. -/
def startOf (lines : LineIndex) (offset : Nat) : Nat :=
  (lines.later.takeWhile (· ≤ offset)).getLast?.getD 0

theorem getElem?_lineOf (lines : LineIndex) (offset : Nat) :
    lines.starts[lines.lineOf offset]? = some (lines.startOf offset) :=
  getElem?_cons_length_takeWhile _ 0 lines.later

theorem startOf_le (lines : LineIndex) (offset : Nat) : lines.startOf offset ≤ offset := by
  unfold startOf
  cases hlast : (lines.later.takeWhile (· ≤ offset)).getLast? with
  | none => exact Nat.zero_le offset
  | some start =>
      have hmem := List.mem_of_getLast? hlast
      exact of_decide_eq_true (List.all_eq_true.1 List.all_takeWhile start hmem)

theorem lt_of_getElem?_succ_lineOf {next : Nat}
    (h : lines.starts[lines.lineOf offset + 1]? = some next) : offset < next := by
  have hpast : decide (next ≤ offset) = false :=
    not_of_getElem?_length_takeWhile (p := (· ≤ offset)) h
  exact Nat.not_le.1 (of_decide_eq_false hpast)

/-- There are no more lines before an offset than units. -/
theorem lineOf_le (hvalid : lines.Valid) (offset : Nat) : lines.lineOf offset ≤ offset := by
  have hstart : ∀ line start : Nat, lines.starts[line]? = some start → line ≤ start := by
    intro line
    induction line with
    | zero => exact fun _ _ => Nat.zero_le _
    | succ line ih =>
        intro start hnext
        obtain ⟨hlt, rfl⟩ := List.getElem?_eq_some_iff.1 hnext
        have hbefore := ih _ (List.getElem?_eq_getElem (Nat.lt_of_succ_lt hlt))
        have hless := List.pairwise_iff_getElem.1 hvalid.increasing line (line + 1)
          (Nat.lt_of_succ_lt hlt) hlt (Nat.lt_succ_self line)
        omega
  exact Nat.le_trans (hstart _ _ (lines.getElem?_lineOf offset)) (lines.startOf_le offset)

theorem lineOf_mono (lines : LineIndex) {a b : Nat} (h : a ≤ b) :
    lines.lineOf a ≤ lines.lineOf b := by
  refine length_takeWhile_le_of_imp ?_ lines.later
  intro start hle
  exact decide_eq_true (Nat.le_trans (of_decide_eq_true hle) h)

/-- The position of an offset, before it is fitted into 32 bits. -/
theorem positionAt_of_le (h : offset ≤ lines.size) :
    lines.positionAt offset =
      .ofNats (lines.lineOf offset) (offset - lines.startOf offset) := by
  simp only [positionAt, Nat.min_eq_left h]
  rfl

theorem positionAt_min (lines : LineIndex) (offset : Nat) :
    lines.positionAt (min offset lines.size) = lines.positionAt offset := by
  simp only [positionAt, Nat.min_assoc, Nat.min_self]

/-- The line and the column of an offset in the text. -/
theorem toNat_positionAt (hvalid : lines.Valid) (hsize : lines.size < UInt32.size)
    (h : offset ≤ lines.size) :
    (lines.positionAt offset).line.toNat = lines.lineOf offset ∧
      (lines.positionAt offset).character.toNat = offset - lines.startOf offset := by
  have hline := lineOf_le hvalid offset
  rw [positionAt_of_le h]
  exact ⟨Position.line_ofNats (by omega) _, Position.character_ofNats _ (by omega)⟩

/-- A position leads back to its offset, but for what 32 bits cut off the
column. -/
theorem offsetAt_positionAt_eq_add_mod (hline : lines.lineOf offset < UInt32.size)
    (h : offset ≤ lines.size) :
    lines.offsetAt (lines.positionAt offset) =
      lines.startOf offset + (offset - lines.startOf offset) % UInt32.size := by
  have hstart := lines.startOf_le offset
  have hmod := Nat.mod_le (offset - lines.startOf offset) UInt32.size
  have hcharacter : (lines.positionAt offset).character.toNat =
      (offset - lines.startOf offset) % UInt32.size := by
    rw [positionAt_of_le h]
    exact UInt32.toNat_ofNat'
  have hposition : (lines.positionAt offset).line.toNat = lines.lineOf offset := by
    rw [positionAt_of_le h, Position.line_ofNats hline]
  simp only [offsetAt, hposition, hcharacter, getElem?_lineOf]
  cases hnext : lines.starts[lines.lineOf offset + 1]? with
  | none =>
      simp only [Option.getD_none]
      omega
  | some next =>
      have := lt_of_getElem?_succ_lineOf hnext
      simp only [Option.getD_some]
      omega

/-- A position leads back to its offset. -/
theorem offsetAt_positionAt (hvalid : lines.Valid) (hsize : lines.size < UInt32.size)
    (offset : Nat) : lines.offsetAt (lines.positionAt offset) = min offset lines.size := by
  rw [← positionAt_min]
  have hle : min offset lines.size ≤ lines.size := Nat.min_le_right _ _
  generalize min offset lines.size = offset at hle ⊢
  have hline := lineOf_le hvalid offset
  have hstart := lines.startOf_le offset
  rw [offsetAt_positionAt_eq_add_mod (by omega) hle, Nat.mod_eq_of_lt (by omega)]
  omega

/-- Positions come in the order of offsets. -/
theorem positionAt_mono (hvalid : lines.Valid) (hsize : lines.size < UInt32.size) {a b : Nat}
    (h : a ≤ b) : (lines.positionAt a).notAfter (lines.positionAt b) = true := by
  rw [← lines.positionAt_min a, ← lines.positionAt_min b]
  have hb : min b lines.size ≤ lines.size := Nat.min_le_right _ _
  have hab : min a lines.size ≤ min b lines.size := by omega
  generalize min a lines.size = a at hab ⊢
  generalize min b lines.size = b at hab hb ⊢
  obtain ⟨hlineA, hcharacterA⟩ := toNat_positionAt hvalid hsize (Nat.le_trans hab hb)
  obtain ⟨hlineB, hcharacterB⟩ := toNat_positionAt hvalid hsize hb
  rw [Position.notAfter_iff, hlineA, hlineB, hcharacterA, hcharacterB]
  rcases Nat.lt_or_eq_of_le (lines.lineOf_mono hab) with hless | hsame
  · exact .inl hless
  · -- On one line columns are counted from one start.
    have hstarts : lines.startOf a = lines.startOf b := by
      apply Option.some.inj
      rw [← getElem?_lineOf, ← getElem?_lineOf, hsame]
    exact .inr ⟨hsame, by omega⟩

/-- Different offsets of the text have different positions. -/
theorem positionAt_strictMono (hvalid : lines.Valid) (hsize : lines.size < UInt32.size) {a b : Nat}
    (h : a < b) (hb : b ≤ lines.size) :
    (lines.positionAt b).notAfter (lines.positionAt a) = false := by
  rw [← Bool.not_eq_true]
  intro hback
  have hsame := Position.eq_of_notAfter (positionAt_mono hvalid hsize (Nat.le_of_lt h)) hback
  have hoffsets := congrArg lines.offsetAt hsame
  rw [offsetAt_positionAt hvalid hsize, offsetAt_positionAt hvalid hsize] at hoffsets
  omega

theorem unitLength_append (a b : List Char) :
    unitLength (a ++ b) = unitLength a + unitLength b := by
  induction a with
  | nil => exact (Nat.zero_add _).symm
  | cons c a ih =>
      show unitWidth c + unitLength (a ++ b) = unitWidth c + unitLength a + unitLength b
      rw [ih, Nat.add_assoc]

theorem startsFrom_append (offset : Nat) (a b : List Char) :
    startsFrom offset (a ++ b) = startsFrom offset a ++ startsFrom (offset + unitLength a) b := by
  induction a generalizing offset with
  | nil => rfl
  | cons c a ih =>
      have hlength : offset + unitWidth c + unitLength a = offset + unitLength (c :: a) :=
        Nat.add_assoc ..
      rw [List.cons_append, startsFrom, startsFrom, ih, hlength]
      split <;> rfl

theorem startsFrom_eq_nil {text : List Char} (h : '\n' ∉ text) (offset : Nat) :
    startsFrom offset text = [] := by
  induction text generalizing offset with
  | nil => rfl
  | cons c text ih =>
      rw [List.mem_cons, not_or] at h
      rw [startsFrom, if_neg (Ne.symm h.1), ih h.2]

section

variable {before line after : List Char}

/-- No line starts inside of a part of the text without line feeds. -/
theorem takeWhile_later (h : '\n' ∉ line) (hfrom : unitLength before ≤ offset)
    (hto : offset ≤ unitLength (before ++ line)) :
    (ofText (before ++ line ++ after)).later.takeWhile (· ≤ offset) = startsFrom 0 before := by
  have hlater : (ofText (before ++ line ++ after)).later =
      startsFrom 0 before ++ startsFrom (unitLength (before ++ line)) after := by
    rw [ofText, startsFrom_append, startsFrom_append, startsFrom_eq_nil h, List.append_nil,
      Nat.zero_add]
  rw [hlater, List.takeWhile_append_of_pos]
  · cases hrest : startsFrom (unitLength (before ++ line)) after with
    | nil => exact List.append_nil _
    | cons next rest =>
        have hnext := (mem_startsFrom (hrest ▸ List.mem_cons_self : next ∈ _)).1
        rw [List.takeWhile_cons_of_neg (by rw [decide_eq_true_eq]; omega), List.append_nil]
  · intro start hstart
    have := (mem_startsFrom hstart).2
    exact decide_eq_true (by omega)

/-- The positions in a part of the text without line feeds have one line, and
their columns are counted from one start. -/
theorem lineOf_eq (h : '\n' ∉ line) (hfrom : unitLength before ≤ offset)
    (hto : offset ≤ unitLength (before ++ line)) :
    (ofText (before ++ line ++ after)).lineOf offset = (startsFrom 0 before).length :=
  congrArg List.length (takeWhile_later h hfrom hto)

theorem startOf_eq (h : '\n' ∉ line) (hfrom : unitLength before ≤ offset)
    (hto : offset ≤ unitLength (before ++ line)) :
    (ofText (before ++ line ++ after)).startOf offset = (startsFrom 0 before).getLast?.getD 0 :=
  congrArg (·.getLast?.getD 0) (takeWhile_later h hfrom hto)

end

end LineIndex

end StyleSense.Text
