/-
# Positions and bytes

A document leads from bytes to editor positions through two tables that are
built apart from each other: one counts code units, one knows the lines. The
main statement says that both ways together only round: a byte inside a
character goes to the character's end, one past the text to the text's end, and
every other byte comes back as it was.
-/

import Mathlib.Order.Bounds.Defs
import StyleSense.Document
import StyleSense.Proofs.Text.Cuts
import StyleSense.Proofs.Text.Lines
import StyleSense.Proofs.Text.Offsets

namespace StyleSense

open StyleSense.Text

namespace Text

/-- Past the start of a text, its boundaries are those of the rest. -/
theorem isBoundary_cons {n : Nat} (h : 0 < n) (c : Char) (cs : List Char) :
    isBoundary (c :: cs) n = true ↔
      c.utf8Size ≤ n ∧ isBoundary cs (n - c.utf8Size) = true := by
  obtain ⟨n, rfl⟩ : ∃ m, n = m + 1 := ⟨n - 1, by omega⟩
  by_cases hle : c.utf8Size ≤ n + 1
  · simp [isBoundary, dropBytes?, hle]
  · simp [isBoundary, dropBytes?, hle]

theorem isBoundary_add (c : Char) {cs : List Char} {n : Nat} (h : isBoundary cs n = true) :
    isBoundary (c :: cs) (c.utf8Size + n) = true := by
  have hpos := c.utf8Size_pos
  rw [isBoundary_cons (by omega), Nat.add_sub_cancel_left]
  exact ⟨Nat.le_add_right _ _, h⟩

/-- The boundaries of a text from a byte on; past the text, its end. -/
def boundariesFrom (cs : List Char) (byte : Nat) : Set Nat :=
  {n | isBoundary cs n = true ∧ min byte (byteLength cs) ≤ n}

namespace Segment

theorem indexAt_mono (row : List Segment) {a b : Nat} (h : a ≤ b) :
    indexAt row a ≤ indexAt row b := by
  induction row generalizing a b with
  | nil => rw [indexAt_nil, indexAt_nil]
  | cons s row ih =>
      rcases Nat.eq_zero_or_pos a with rfl | ha
      · rw [indexAt_zero]
        exact Nat.zero_le _
      · rw [indexAt_cons ha, indexAt_cons (by omega)]
        exact Nat.add_le_add_left (ih (by omega)) _

theorem indexAt_le_totalWidth (row : List Segment) (offset : Nat) :
    indexAt row offset ≤ totalWidth row := by
  induction row generalizing offset with
  | nil => rw [indexAt_nil, totalWidth_nil]
  | cons s row ih =>
      rcases Nat.eq_zero_or_pos offset with rfl | hoffset
      · rw [indexAt_zero]
        exact Nat.zero_le _
      · rw [indexAt_cons hoffset, totalWidth_cons]
        exact Nat.add_le_add_left (ih _) _

/-- One step of the way to an index and back. -/
theorem byteAt_indexAt_cons {s : Segment} (hwidth : 0 < s.width) (row : List Segment)
    {offset : Nat} (h : 0 < offset) :
    byteAt (s :: row) (indexAt (s :: row) offset) =
      s.bytes + byteAt row (indexAt row (offset - s.bytes)) := by
  rw [indexAt_cons h, byteAt_cons (by omega), Nat.add_sub_cancel_left]

/-- Rounding a byte up to a boundary keeps its index. -/
theorem indexAt_byteAt_indexAt {row : List Segment} (hbytes : ∀ s ∈ row, 0 < s.bytes)
    (hwidth : ∀ s ∈ row, 0 < s.width) (offset : Nat) :
    indexAt row (byteAt row (indexAt row offset)) = indexAt row offset := by
  induction row generalizing offset with
  | nil => rw [indexAt_nil, indexAt_nil]
  | cons s row ih =>
      have hs := hbytes s List.mem_cons_self
      have hrest := ih (fun s hmem => hbytes s (List.mem_cons_of_mem _ hmem))
        (fun s hmem => hwidth s (List.mem_cons_of_mem _ hmem)) (offset - s.bytes)
      rcases Nat.eq_zero_or_pos offset with rfl | hoffset
      · simp only [indexAt_zero, byteAt_zero]
      · rw [byteAt_indexAt_cons (hwidth s List.mem_cons_self) row hoffset,
          indexAt_cons (by omega), Nat.add_sub_cancel_left, hrest, indexAt_cons hoffset]

end Segment

open Segment

theorem totalWidth_segments (cs : List Char) :
    totalWidth (segments .unit cs) = unitLength cs :=
  List.foldr_map ..

/-- To an index and back, a byte is rounded up to the next boundary. -/
theorem isLeast_byteAt_indexAt (cs : List Char) (byte : Nat) :
    IsLeast (boundariesFrom cs byte)
      (byteAt (segments .unit cs) (indexAt (segments .unit cs) byte)) := by
  induction cs generalizing byte with
  | nil =>
      rw [show segments .unit [] = [] from rfl, byteAt_nil]
      exact ⟨⟨isBoundary_zero [], Nat.min_le_right _ _⟩, fun n _ => Nat.zero_le n⟩
  | cons c cs ih =>
      rcases Nat.eq_zero_or_pos byte with rfl | hbyte
      · rw [indexAt_zero, byteAt_zero]
        exact ⟨⟨isBoundary_zero _, Nat.min_le_left _ _⟩, fun n _ => Nat.zero_le n⟩
      · let s : Segment := ⟨c.utf8Size, unitWidth c⟩
        have hpos := c.utf8Size_pos
        have hstep : byteAt (segments .unit (c :: cs)) (indexAt (segments .unit (c :: cs)) byte) =
            c.utf8Size + byteAt (segments .unit cs)
              (indexAt (segments .unit cs) (byte - c.utf8Size)) :=
          byteAt_indexAt_cons (s := s) (unitWidth_pos c) _ hbyte
        obtain ⟨⟨hboundary, hfrom⟩, hleast⟩ := ih (byte - c.utf8Size)
        rw [hstep]
        constructor
        · refine ⟨isBoundary_add c hboundary, ?_⟩
          rw [byteLength_cons]
          omega
        · rintro n ⟨hn, hle⟩
          rw [byteLength_cons] at hle
          obtain ⟨hsize, hrest⟩ := (isBoundary_cons (by omega) c cs).1 hn
          have := hleast ⟨hrest, by omega⟩
          omega

/-- A boundary is rounded to itself. -/
theorem byteAt_indexAt_of_isBoundary {cs : List Char} {byte : Nat}
    (h : isBoundary cs byte = true) :
    byteAt (segments .unit cs) (indexAt (segments .unit cs) byte) = byte := by
  obtain ⟨⟨-, hfrom⟩, hleast⟩ := isLeast_byteAt_indexAt cs byte
  have hup := hleast ⟨h, Nat.min_le_left _ _⟩
  rw [Nat.min_eq_left (le_byteLength_of_isBoundary h)] at hfrom
  exact Nat.le_antisymm hup hfrom

/-- Different boundaries have different indices. -/
theorem indexAt_lt_of_isBoundary {cs : List Char} {a b : Nat} (ha : isBoundary cs a = true)
    (hb : isBoundary cs b = true) (h : a < b) :
    indexAt (segments .unit cs) a < indexAt (segments .unit cs) b := by
  refine Nat.lt_of_le_of_ne (indexAt_mono _ (Nat.le_of_lt h)) fun hsame => ?_
  have hbytes := congrArg (byteAt (segments .unit cs)) hsame
  rw [byteAt_indexAt_of_isBoundary ha, byteAt_indexAt_of_isBoundary hb] at hbytes
  omega

end Text

namespace Document

open Segment

theorem localByte_eq (offset base : UInt32) :
    localByte offset base = offset.toNat - base.toNat := by
  by_cases h : offset < base
  · have hlt : offset.toNat < base.toNat := UInt32.lt_iff_toNat_lt.1 h
    rw [localByte, saturatingSub, if_pos h, Nat.sub_eq_zero_of_le (Nat.le_of_lt hlt)]
    rfl
  · have hle : base ≤ offset := UInt32.not_lt.1 h
    rw [localByte, saturatingSub, if_neg h, UInt32.toNat_sub_of_le _ _ hle]

/-- Bytes come in the order of their offsets. -/
theorem localByte_mono {a b : UInt32} (h : a ≤ b) (base : UInt32) :
    localByte a base ≤ localByte b base := by
  rw [localByte_eq, localByte_eq]
  exact Nat.sub_le_sub_right (UInt32.le_iff_toNat_le.1 h) _

/-- The code units of a document, from which both tables are built. -/
def row (d : Document) : List Segment :=
  segments .unit d.text.toList

theorem bytes_pos_of_mem_row (d : Document) : ∀ s ∈ d.row, 0 < s.bytes :=
  bytes_pos_of_mem_segmentsBy isClustering_clusters .unit d.text.toList

theorem width_pos_of_mem_row (d : Document) : ∀ s ∈ d.row, 0 < s.width :=
  width_pos_of_mem_segmentsBy clusters .unit d.text.toList

theorem positionOfByte_eq (d : Document) (byte : Nat) :
    d.positionOfByte byte = d.lines.positionAt (indexAt d.row byte) := by
  have hindex : (OffsetTable.ofSegments d.text.toList d.row).indexOfByte byte =
      indexAt d.row byte := OffsetTable.indexOfByte_ofSegments d.bytes_pos_of_mem_row byte
  rw [positionOfByte, d.offsets_eq]
  exact congrArg d.lines.positionAt hindex

/-- The position behind a start of the text. -/
theorem positionOfByte_byteLength (d : Document) {a b : List Char} (h : d.text.toList = a ++ b) :
    d.positionOfByte (byteLength a) = d.lines.positionAt (unitLength a) := by
  have hrow : d.row = segments .unit a ++ segments .unit b := by
    rw [row, h]
    exact List.map_append ..
  have hbytes : totalBytes (segments .unit a) = byteLength a :=
    totalBytes_segmentsBy isClustering_clusters .unit a
  have hpos : ∀ s ∈ segments .unit a, 0 < s.bytes :=
    bytes_pos_of_mem_segmentsBy isClustering_clusters .unit a
  rw [positionOfByte_eq, hrow, ← hbytes, indexAt_append hpos _ (Nat.le_refl _), Nat.sub_self,
    indexAt_zero, Nat.add_zero, totalWidth_segments]

theorem byteOfPosition_eq (d : Document) (p : Position) :
    d.byteOfPosition p = byteAt d.row (d.lines.offsetAt p) := by
  have hbyte : (OffsetTable.ofSegments d.text.toList d.row).byteOfIndex (d.lines.offsetAt p) =
      byteAt d.row (d.lines.offsetAt p) :=
    OffsetTable.byteOfIndex_ofSegments d.width_pos_of_mem_row (d.lines.offsetAt p)
  rw [byteOfPosition, d.offsets_eq]
  exact hbyte

theorem valid_lines (d : Document) : d.lines.Valid := by
  rw [d.lines_eq]
  exact LineIndex.valid_ofText _

theorem size_lines (d : Document) : d.lines.size = unitLength d.text.toList := by
  rw [d.lines_eq]
  rfl

variable {d : Document} (hsize : unitLength d.text.toList < UInt32.size)

include hsize

/-- The lines lead back to the index of a byte. -/
theorem offsetAt_positionOfByte (byte : Nat) :
    d.lines.offsetAt (d.positionOfByte byte) = indexAt d.row byte := by
  have hindex : indexAt d.row byte ≤ d.lines.size := by
    rw [d.size_lines, ← totalWidth_segments]
    exact indexAt_le_totalWidth _ byte
  rw [positionOfByte_eq, LineIndex.offsetAt_positionAt d.valid_lines (d.size_lines ▸ hsize),
    Nat.min_eq_left hindex]

theorem positionOfByte_mono {a b : Nat} (h : a ≤ b) :
    (d.positionOfByte a).notAfter (d.positionOfByte b) = true := by
  rw [positionOfByte_eq, positionOfByte_eq]
  exact LineIndex.positionAt_mono d.valid_lines (d.size_lines ▸ hsize) (indexAt_mono _ h)

/-- The main statement: to a position and back, a byte is rounded up to the next
boundary. Positions are in the order of bytes, strictly so on boundaries, and the position of a byte
stays where it is when it is taken there and back. So a span that ends no
earlier than it starts has a range that does. -/
theorem isLeast_byteOfPosition_positionOfByte :
    (∀ byte, IsLeast (boundariesFrom d.text.toList byte)
      (d.byteOfPosition (d.positionOfByte byte))) ∧
    (∀ a b, a ≤ b → (d.positionOfByte a).notAfter (d.positionOfByte b) = true) ∧
    (∀ a b, isBoundary d.text.toList a = true → isBoundary d.text.toList b = true → a < b →
      (d.positionOfByte b).notAfter (d.positionOfByte a) = false) ∧
    (∀ byte, d.positionOfByte (d.byteOfPosition (d.positionOfByte byte)) =
      d.positionOfByte byte) ∧
    (∀ (span : Span) (base : UInt32), span.start ≤ span.stop →
      (d.rangeOfSpan span base).start.notAfter (d.rangeOfSpan span base).stop = true) := by
  have hback : ∀ byte, d.byteOfPosition (d.positionOfByte byte) =
      byteAt d.row (indexAt d.row byte) := by
    intro byte
    rw [byteOfPosition_eq, offsetAt_positionOfByte hsize]
  refine ⟨?_, fun a b h => positionOfByte_mono hsize h, ?_, ?_, ?_⟩
  · intro byte
    rw [hback]
    exact isLeast_byteAt_indexAt _ byte
  · intro a b ha hb h
    rw [positionOfByte_eq, positionOfByte_eq]
    have hindex : indexAt d.row b ≤ d.lines.size := by
      rw [d.size_lines, ← totalWidth_segments]
      exact indexAt_le_totalWidth _ b
    exact LineIndex.positionAt_strictMono d.valid_lines (d.size_lines ▸ hsize)
      (indexAt_lt_of_isBoundary ha hb h) hindex
  · intro byte
    rw [hback, positionOfByte_eq, positionOfByte_eq,
      indexAt_byteAt_indexAt d.bytes_pos_of_mem_row d.width_pos_of_mem_row]
  · intro span base h
    exact positionOfByte_mono hsize (localByte_mono h base)

omit hsize in
/-- Byte 5 lies inside a surrogate pair on the second line. -/
theorem isLeast_byteOfPosition_positionOfByte_pair :
    let d : Document :=
      .new "a.js" "javascript" 1 (String.ofList ['\u00e9', '\n', Char.ofNat 0x1F600, ';'])
    unitLength d.text.toList < UInt32.size ∧
      IsLeast (boundariesFrom d.text.toList 5) (d.byteOfPosition (d.positionOfByte 5)) ∧
      d.positionOfByte 5 = ⟨1, 2⟩ ∧ d.byteOfPosition ⟨1, 2⟩ = 7 := by
  intro d
  have hsize : unitLength d.text.toList < UInt32.size := by
    simp only [d, new, String.toList_ofList]
    decide
  refine ⟨hsize, (isLeast_byteOfPosition_positionOfByte hsize).1 5, ?_, ?_⟩
  · rw [positionOfByte, d.lines_eq, d.offsets_eq]
    simp only [d, new, String.toList_ofList]
    decide
  · rw [byteOfPosition, d.lines_eq, d.offsets_eq]
    simp only [d, new, String.toList_ofList]
    decide

section

variable {before line after : List Char} (hascii : IsAscii d.text.toList)
  (hlength : d.text.toList.length < UInt32.size)
  (htext : d.text.toList = before ++ line ++ after) (hline : '\n' ∉ line)

omit hsize

include hascii hlength htext hline

/-- In a part of an ASCII document without line feeds, all places are on one
line, and their columns are their bytes without those of the lines before. -/
theorem toNat_positionOfByte {i : Nat} (hi : i ≤ line.length) :
    (d.positionOfByte (before.length + i)).line.toNat = (LineIndex.startsFrom 0 before).length ∧
      (d.positionOfByte (before.length + i)).character.toNat =
        before.length + i - (LineIndex.startsFrom 0 before).getLast?.getD 0 := by
  have hcut : d.text.toList = (before ++ line.take i) ++ (line.drop i ++ after) := by
    rw [htext]
    simp only [List.append_assoc, List.take_append_drop, ← List.append_assoc (line.take i)]
  have hall := hascii
  rw [htext, isAscii_append, isAscii_append] at hall
  obtain ⟨⟨hbefore, hlineAscii⟩, -⟩ := hall
  have hlead := (isAscii_append.1 (hcut ▸ hascii)).1
  have hsize : d.lines.size = d.text.toList.length := by
    rw [d.size_lines, unitLength_of_isAscii hascii]
  have hend : before.length + i ≤ d.lines.size := by
    rw [hsize, htext, List.length_append, List.length_append]
    omega
  have hfrom : unitLength before ≤ before.length + i := by
    rw [unitLength_of_isAscii hbefore]
    exact Nat.le_add_right _ _
  have hto : before.length + i ≤ unitLength (before ++ line) := by
    rw [unitLength_of_isAscii (isAscii_append.2 ⟨hbefore, hlineAscii⟩), List.length_append]
    exact Nat.add_le_add_left hi _
  have hposition := d.positionOfByte_byteLength hcut
  rw [byteLength_of_isAscii hlead, unitLength_of_isAscii hlead, List.length_append,
    List.length_take, Nat.min_eq_left hi] at hposition
  obtain ⟨hlineAt, hcharacterAt⟩ :=
    LineIndex.toNat_positionAt d.valid_lines (hsize ▸ hlength) hend
  rw [hposition, hlineAt, hcharacterAt, d.lines_eq, htext]
  exact ⟨LineIndex.lineOf_eq hline hfrom hto,
    congrArg (before.length + i - ·) (LineIndex.startOf_eq hline hfrom hto)⟩

/-- There, columns count bytes. -/
theorem positionOfByte_add {i : Nat} (hi : i ≤ line.length) :
    (d.positionOfByte (before.length + i)).line = (d.positionOfByte before.length).line ∧
      (d.positionOfByte (before.length + i)).character.toNat =
        (d.positionOfByte before.length).character.toNat + i := by
  have hstart : (LineIndex.startsFrom 0 before).getLast?.getD 0 ≤ before.length := by
    rw [htext, isAscii_append, isAscii_append] at hascii
    cases hlast : (LineIndex.startsFrom 0 before).getLast? with
    | none => exact Nat.zero_le _
    | some start =>
        have hmem := (LineIndex.mem_startsFrom (List.mem_of_getLast? hlast)).2
        rwa [Nat.zero_add, unitLength_of_isAscii hascii.1.1] at hmem
  obtain ⟨hlineAt, hcharacterAt⟩ := toNat_positionOfByte hascii hlength htext hline hi
  obtain ⟨hlineStart, hcharacterStart⟩ :=
    toNat_positionOfByte hascii hlength htext hline (Nat.zero_le _)
  rw [Nat.add_zero] at hlineStart hcharacterStart
  exact ⟨UInt32.toNat_inj.1 (hlineAt.trans hlineStart.symm), by omega⟩

end

section

variable {a b : Nat}

omit hsize

/-- Whether a character of one byte stands at a byte. -/
def HasAscii (d : Document) (byte : Nat) : Prop :=
  ∃ c, d.charAt? byte = some c ∧ c.toNat < 128

/-- The text up to the end of such a character. -/
theorem HasAscii.exists_lead (h : d.HasAscii a) :
    ∃ lead, lead <+: d.text.toList ∧ byteLength lead = a + 1 := by
  obtain ⟨c, hchar, hc⟩ := h
  rw [charAt?, Option.bind_eq_some_iff] at hchar
  obtain ⟨rest, hrest, hhead⟩ := hchar
  obtain ⟨lead, htext, hlead⟩ := dropBytes?_eq_some_iff.1 hrest
  obtain ⟨tail, rfl⟩ := List.head?_eq_some_iff.1 hhead
  refine ⟨lead ++ [c], ⟨tail, by rw [htext, List.append_assoc]; rfl⟩, ?_⟩
  rw [byteLength_append, byteLength_cons, utf8Size_of_lt hc, hlead]
  rfl

/-- As long as 32 bits hold an offset, its position says what it is. -/
theorem offsetAt_positionOfByte_lead {lead : List Char} (h : lead <+: d.text.toList)
    (hsize : byteLength lead < UInt32.size) :
    d.lines.offsetAt (d.positionOfByte (byteLength lead)) = unitLength lead := by
  obtain ⟨rest, htext⟩ := h
  have hunits : unitLength lead < UInt32.size :=
    Nat.lt_of_le_of_lt (unitLength_le_byteLength lead) hsize
  have hle : unitLength lead ≤ d.lines.size := by
    rw [d.size_lines, ← htext, LineIndex.unitLength_append]
    exact Nat.le_add_right _ _
  have hline := LineIndex.lineOf_le d.valid_lines (unitLength lead)
  have hstart := d.lines.startOf_le (unitLength lead)
  rw [d.positionOfByte_byteLength htext.symm,
    LineIndex.offsetAt_positionAt_eq_add_mod (by omega) hle, Nat.mod_eq_of_lt (by omega)]
  omega

/-- Places behind different characters of one byte have different positions. -/
theorem HasAscii.inj (ha : d.HasAscii a) (hb : d.HasAscii b) (hsizeA : a + 1 < UInt32.size)
    (hsizeB : b + 1 < UInt32.size)
    (h : d.positionOfByte (a + 1) = d.positionOfByte (b + 1)) : a = b := by
  obtain ⟨leadA, hleadA, hlengthA⟩ := ha.exists_lead
  obtain ⟨leadB, hleadB, hlengthB⟩ := hb.exists_lead
  have hunits : unitLength leadA = unitLength leadB := by
    rw [← offsetAt_positionOfByte_lead hleadA (hlengthA ▸ hsizeA),
      ← offsetAt_positionOfByte_lead hleadB (hlengthB ▸ hsizeB), hlengthA, hlengthB, h]
  have hnil (more : List Char) (hmore : unitLength more = 0) : more = [] := by
    cases more with
    | nil => rfl
    | cons c more =>
        have := unitWidth_pos c
        rw [show unitLength (c :: more) = unitWidth c + unitLength more from rfl] at hmore
        omega
  have hleads : leadA = leadB := by
    rcases List.prefix_or_prefix_of_prefix hleadA hleadB with ⟨more, hmore⟩ | ⟨more, hmore⟩
    · rw [← hmore, LineIndex.unitLength_append] at hunits
      rw [← hmore, hnil more (by omega), List.append_nil]
    · rw [← hmore, LineIndex.unitLength_append] at hunits
      rw [← hmore, hnil more (by omega), List.append_nil]
  rw [hleads, hlengthB] at hlengthA
  omega

end

end Document

end StyleSense
