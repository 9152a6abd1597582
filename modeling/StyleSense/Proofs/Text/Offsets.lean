/-
# Look-ups in a table of offsets are scans of the whole text

A look-up starts at the last checkpoint that is not past what is asked for and
scans on from there. The main statement says that this is a scan of the whole
row of segments: the index of a byte is the width of all segments that start
before it, and the byte of an index is the end of the shortest lead of the row
that is wide enough. It holds for any cut into clusters that can start anew
between two clusters.
-/

import Mathlib.Data.List.Infix
import StyleSense.Proofs.Text.Clusters
import StyleSense.Text.Offsets

namespace StyleSense.Text

namespace Segment

/-- The bytes of a row. -/
def totalBytes (row : List Segment) : Nat :=
  total bytes row

/-- The width of a row. -/
def totalWidth (row : List Segment) : Nat :=
  total width row

/-- The segments of a row with the bytes at which they start. -/
def placedFrom (start : Nat) : List Segment → List (Nat × Segment)
  | [] => []
  | s :: rest => (start, s) :: placedFrom (start + s.bytes) rest

/-- The width of the segments of a row that start before a byte. -/
def widthBefore (row : List Segment) (offset : Nat) : Nat :=
  totalWidth (((placedFrom 0 row).filter (·.1 < offset)).map (·.2))

/-- The shortest lead of a row that is at least `index` wide. -/
def shortestLead? (row : List Segment) (index : Nat) : Option (List Segment) :=
  row.inits.find? fun lead => index ≤ totalWidth lead

@[simp] theorem totalBytes_nil : totalBytes [] = 0 := rfl

@[simp] theorem totalBytes_cons (s : Segment) (row : List Segment) :
    totalBytes (s :: row) = s.bytes + totalBytes row := rfl

@[simp] theorem totalWidth_nil : totalWidth [] = 0 := rfl

@[simp] theorem totalWidth_cons (s : Segment) (row : List Segment) :
    totalWidth (s :: row) = s.width + totalWidth row := rfl

@[simp] theorem indexAt_zero (row : List Segment) : indexAt row 0 = 0 := by
  cases row <;> rfl

@[simp] theorem byteAt_zero (row : List Segment) : byteAt row 0 = 0 := by
  cases row <;> rfl

@[simp] theorem indexAt_nil (offset : Nat) : indexAt [] offset = 0 := by
  cases offset <;> rfl

@[simp] theorem byteAt_nil (index : Nat) : byteAt [] index = 0 := by
  cases index <;> rfl

theorem indexAt_cons {offset : Nat} (h : 0 < offset) (s : Segment) (row : List Segment) :
    indexAt (s :: row) offset = s.width + indexAt row (offset - s.bytes) := by
  cases offset with
  | zero => omega
  | succ offset => rfl

theorem byteAt_cons {index : Nat} (h : 0 < index) (s : Segment) (row : List Segment) :
    byteAt (s :: row) index = s.bytes + byteAt row (index - s.width) := by
  cases index with
  | zero => omega
  | succ index => rfl

/-- The row may start anywhere, so that the induction can move on. -/
theorem indexAt_sub_eq (row : List Segment) (start offset : Nat) :
    indexAt row (offset - start) =
      totalWidth (((placedFrom start row).filter (·.1 < offset)).map (·.2)) := by
  induction row generalizing start with
  | nil => simp [placedFrom]
  | cons s row ih =>
      have hrest := ih (start + s.bytes)
      by_cases h : start < offset
      · rw [indexAt_cons (by omega), Nat.sub_sub, hrest]
        simp [placedFrom, h]
      · have hpast : offset - (start + s.bytes) = 0 := by omega
        rw [hpast, indexAt_zero] at hrest
        rw [Nat.sub_eq_zero_of_le (by omega), indexAt_zero, hrest]
        simp [placedFrom, h]

theorem indexAt_eq_widthBefore (row : List Segment) (offset : Nat) :
    indexAt row offset = widthBefore row offset :=
  indexAt_sub_eq row 0 offset

theorem shortestLead?_zero (row : List Segment) : shortestLead? row 0 = some [] := by
  cases row <;> simp [shortestLead?]

/-- A lead that is not empty is the first segment and a lead of the rest. -/
theorem shortestLead?_cons {index : Nat} (h : 0 < index) (s : Segment) (row : List Segment) :
    shortestLead? (s :: row) index = (shortestLead? row (index - s.width)).map (s :: ·) := by
  let wide : List Segment → Bool := fun lead => index ≤ totalWidth lead
  have hempty : ¬ wide [] := fun hwide => by
    have hle : index ≤ totalWidth [] := of_decide_eq_true hwide
    rw [totalWidth_nil] at hle
    omega
  have hwidth : wide ∘ (s :: ·) = fun lead => decide (index - s.width ≤ totalWidth lead) := by
    funext lead
    simp only [wide, Function.comp_apply, totalWidth_cons]
    exact decide_eq_decide.2 (by omega)
  calc
    shortestLead? (s :: row) index
      = ([] :: row.inits.map (s :: ·)).find? wide := by rw [shortestLead?, List.inits_cons]
    _ = (row.inits.map (s :: ·)).find? wide := List.find?_cons_of_neg hempty
    _ = (shortestLead? row (index - s.width)).map (s :: ·) := by
        rw [List.find?_map, hwidth]
        rfl

theorem byteAt_eq (row : List Segment) (index : Nat) :
    byteAt row index = ((shortestLead? row index).map totalBytes).getD (totalBytes row) := by
  induction row generalizing index with
  | nil => cases h : shortestLead? [] index <;> simp_all [shortestLead?]
  | cons s row ih =>
      by_cases h : 0 < index
      · rw [byteAt_cons h, shortestLead?_cons h, ih]
        cases shortestLead? row (index - s.width) <;> simp
      · obtain rfl : index = 0 := by omega
        rw [byteAt_zero, shortestLead?_zero]
        rfl

/-! Where every segment takes space, a scan past the end of a lead is a scan of
what follows it. -/

theorem indexAt_append {lead : List Segment} (hpos : ∀ s ∈ lead, 0 < s.bytes)
    (rest : List Segment) {offset : Nat} (h : totalBytes lead ≤ offset) :
    indexAt (lead ++ rest) offset =
      totalWidth lead + indexAt rest (offset - totalBytes lead) := by
  induction lead generalizing offset with
  | nil => simp
  | cons s lead ih =>
      have hs := hpos s List.mem_cons_self
      rw [totalBytes_cons] at h
      rw [List.cons_append, indexAt_cons (by omega),
        ih (fun s hmem => hpos s (List.mem_cons_of_mem _ hmem)) (by omega),
        totalWidth_cons, totalBytes_cons, Nat.sub_sub, Nat.add_assoc]

theorem byteAt_append {lead : List Segment} (hpos : ∀ s ∈ lead, 0 < s.width)
    (rest : List Segment) {index : Nat} (h : totalWidth lead ≤ index) :
    byteAt (lead ++ rest) index =
      totalBytes lead + byteAt rest (index - totalWidth lead) := by
  induction lead generalizing index with
  | nil => simp
  | cons s lead ih =>
      have hs := hpos s List.mem_cons_self
      rw [totalWidth_cons] at h
      rw [List.cons_append, byteAt_cons (by omega),
        ih (fun s hmem => hpos s (List.mem_cons_of_mem _ hmem)) (by omega),
        totalBytes_cons, totalWidth_cons, Nat.sub_sub, Nat.add_assoc]

/-- Nothing starts at the end of a row or past it. -/
theorem indexAt_min {row : List Segment} (hpos : ∀ s ∈ row, 0 < s.bytes) (offset : Nat) :
    indexAt row (min offset (totalBytes row)) = indexAt row offset := by
  by_cases h : offset ≤ totalBytes row
  · rw [Nat.min_eq_left h]
  · have hend := indexAt_append hpos [] (Nat.le_refl (totalBytes row))
    have hpast := indexAt_append hpos [] (Nat.le_of_not_le h)
    rw [Nat.min_eq_right (Nat.le_of_not_le h)]
    rw [List.append_nil, indexAt_nil] at hend hpast
    rw [hend, hpast]

end Segment

open Segment

@[simp] theorem byteLength_nil : byteLength [] = 0 := rfl

@[simp] theorem byteLength_cons (c : Char) (cs : List Char) :
    byteLength (c :: cs) = c.utf8Size + byteLength cs := rfl

@[simp] theorem byteLength_append (a b : List Char) :
    byteLength (a ++ b) = byteLength a + byteLength b := by
  induction a with
  | nil => rw [List.nil_append, byteLength_nil, Nat.zero_add]
  | cons c a ih => rw [List.cons_append, byteLength_cons, ih, byteLength_cons, Nat.add_assoc]

theorem byteLength_pos {cs : List Char} (h : cs ≠ []) : 0 < byteLength cs := by
  cases cs with
  | nil => exact absurd rfl h
  | cons c cs =>
      have := c.utf8Size_pos
      rw [byteLength_cons]
      omega

theorem unitWidth_pos (c : Char) : 0 < unitWidth c := by
  unfold unitWidth
  split <;> omega

/-- Dropping the bytes of a lead leaves what follows it. -/
theorem dropBytes?_append (a b : List Char) : dropBytes? (byteLength a) (a ++ b) = some b := by
  induction a with
  | nil => cases b <;> rfl
  | cons c a ih =>
      have hpos := c.utf8Size_pos
      obtain ⟨n, hn⟩ : ∃ n, byteLength (c :: a) = n + 1 :=
        ⟨byteLength (c :: a) - 1, by rw [byteLength_cons]; omega⟩
      have hrest : n + 1 - c.utf8Size = byteLength a := by
        rw [← hn, byteLength_cons]
        omega
      rw [hn, List.cons_append, dropBytes?, if_pos (by rw [← hn, byteLength_cons]; omega), hrest,
        ih]

variable {cut : List Char → List (List Char)}

/-- Every segment takes at least one byte. -/
theorem bytes_pos_of_mem_segmentsBy (hcut : IsClustering cut) (granularity : Granularity)
    (text : List Char) : ∀ s ∈ segmentsBy cut granularity text, 0 < s.bytes := by
  intro s hmem
  cases granularity with
  | unit =>
      obtain ⟨c, -, rfl⟩ := List.mem_map.1 hmem
      exact c.utf8Size_pos
  | grapheme =>
      obtain ⟨cluster, hcluster, rfl⟩ := List.mem_map.1 hmem
      exact byteLength_pos (hcut.nonempty text cluster hcluster)

/-- Every segment is at least one unit wide. -/
theorem width_pos_of_mem_segmentsBy (cut : List Char → List (List Char))
    (granularity : Granularity) (text : List Char) :
    ∀ s ∈ segmentsBy cut granularity text, 0 < s.width := by
  intro s hmem
  cases granularity with
  | unit =>
      obtain ⟨c, -, rfl⟩ := List.mem_map.1 hmem
      exact unitWidth_pos c
  | grapheme =>
      obtain ⟨cluster, -, rfl⟩ := List.mem_map.1 hmem
      exact Nat.one_pos

/-- A lead of the segments of a text ends between two of its characters, and
what follows it are the segments of the rest of the text. -/
theorem exists_rest_of_segmentsBy (hcut : IsClustering cut) {granularity : Granularity}
    {text : List Char} {lead rest : List Segment}
    (h : segmentsBy cut granularity text = lead ++ rest) :
    ∃ before after, text = before ++ after ∧ totalBytes lead = byteLength before ∧
      segmentsBy cut granularity after = rest := by
  cases granularity with
  | unit =>
      obtain ⟨before, after, rfl, rfl, rfl⟩ := List.map_eq_append_iff.1 h
      exact ⟨before, after, rfl, List.foldr_map .., rfl⟩
  | grapheme =>
      obtain ⟨before, after, hsplit, rfl, rfl⟩ := List.map_eq_append_iff.1 h
      refine ⟨before.flatten, after.flatten, ?_, ?_, ?_⟩
      · rw [← List.flatten_append, ← hsplit, hcut.flatten_cut]
      · clear h hsplit
        induction before with
        | nil => rfl
        | cons cluster before ih => simpa using ih
      · rw [segmentsBy, hcut.restart text before after hsplit]

/-- The segments of a text have all its bytes. -/
theorem totalBytes_segmentsBy (hcut : IsClustering cut) (granularity : Granularity)
    (text : List Char) : totalBytes (segmentsBy cut granularity text) = byteLength text := by
  obtain ⟨before, after, rfl, hbytes, hafter⟩ :=
    exists_rest_of_segmentsBy hcut (List.append_nil (segmentsBy cut granularity text)).symm
  have hnone : after = [] := by
    cases granularity with
    | unit => simpa [segmentsBy] using hafter
    | grapheme =>
        have := hcut.flatten_cut after
        simp_all [segmentsBy]
  rw [hbytes, hnone, List.append_nil]

namespace Checkpoint

/-- A checkpoint that says how much of a row lies before it. -/
def Splits (row : List Segment) (c : Checkpoint) : Prop :=
  ∃ lead, row = lead ++ c.rest ∧ c.byte = totalBytes lead ∧ c.index = totalWidth lead

/-- The order of checkpoints, which is the same in bytes and in units. A search
of either coordinate finds the same checkpoint. -/
def Before (a b : Checkpoint) : Prop :=
  a.byte < b.byte ∧ a.index < b.index

end Checkpoint

theorem splits_of_mem_checkpointsFrom {byte index left : Nat} {row : List Segment}
    {c : Checkpoint} (h : c ∈ checkpointsFrom byte index left row) :
    ∃ lead, row = lead ++ c.rest ∧ c.byte = byte + totalBytes lead ∧
      c.index = index + totalWidth lead := by
  induction row generalizing byte index left with
  | nil => simp [checkpointsFrom] at h
  | cons s row ih =>
      have hlater : ∀ left, c ∈ checkpointsFrom (byte + s.bytes) (index + s.width) left row →
          ∃ lead, s :: row = lead ++ c.rest ∧ c.byte = byte + totalBytes lead ∧
            c.index = index + totalWidth lead := by
        intro left hmem
        obtain ⟨lead, hrow, hbyte, hindex⟩ := ih hmem
        refine ⟨s :: lead, by rw [hrow, List.cons_append], ?_, ?_⟩
        · rw [hbyte, totalBytes_cons, Nat.add_assoc]
        · rw [hindex, totalWidth_cons, Nat.add_assoc]
      cases left with
      | succ left => exact hlater left h
      | zero =>
          rcases List.mem_cons.1 h with rfl | h
          · exact ⟨[], rfl, rfl, rfl⟩
          · exact hlater _ h

theorem le_of_mem_checkpointsFrom {byte index left : Nat} {row : List Segment}
    {c : Checkpoint} (h : c ∈ checkpointsFrom byte index left row) :
    byte ≤ c.byte ∧ index ≤ c.index := by
  obtain ⟨lead, -, hbyte, hindex⟩ := splits_of_mem_checkpointsFrom h
  exact ⟨by omega, by omega⟩

theorem before_of_mem_checkpointsFrom_cons {s : Segment} (hbytes : 0 < s.bytes)
    (hwidth : 0 < s.width) {start c : Checkpoint} {left : Nat} {row : List Segment}
    (h : c ∈ checkpointsFrom (start.byte + s.bytes) (start.index + s.width) left row) :
    start.Before c := by
  obtain ⟨hb, hi⟩ := le_of_mem_checkpointsFrom h
  exact ⟨by omega, by omega⟩

theorem pairwise_checkpointsFrom {row : List Segment} (hbytes : ∀ s ∈ row, 0 < s.bytes)
    (hwidth : ∀ s ∈ row, 0 < s.width) (byte index left : Nat) :
    (checkpointsFrom byte index left row).Pairwise Checkpoint.Before := by
  induction row generalizing byte index left with
  | nil => simp [checkpointsFrom]
  | cons s row ih =>
      have hrow := ih (fun s hmem => hbytes s (List.mem_cons_of_mem _ hmem))
        (fun s hmem => hwidth s (List.mem_cons_of_mem _ hmem))
      cases left with
      | succ left => exact hrow _ _ left
      | zero =>
          refine List.pairwise_cons.2 ⟨?_, hrow _ _ _⟩
          intro c hmem
          exact before_of_mem_checkpointsFrom_cons (hbytes s List.mem_cons_self)
            (hwidth s List.mem_cons_self) hmem

namespace OffsetTable

/-- All checkpoints, the one at the start of the text included. -/
def checkpoints (t : OffsetTable) : List Checkpoint :=
  t.first :: t.later

theorem splits_of_mem_checkpoints {text : List Char} {row : List Segment} {c : Checkpoint}
    (h : c ∈ (ofSegments text row).checkpoints) : c.Splits row := by
  rcases List.mem_cons.1 h with rfl | h
  · exact ⟨[], rfl, rfl, rfl⟩
  · simpa [Checkpoint.Splits] using splits_of_mem_checkpointsFrom h

theorem pairwise_checkpoints {text : List Char} {row : List Segment}
    (hbytes : ∀ s ∈ row, 0 < s.bytes) (hwidth : ∀ s ∈ row, 0 < s.width) :
    (ofSegments text row).checkpoints.Pairwise Checkpoint.Before := by
  refine List.pairwise_cons.2 ⟨?_, pairwise_checkpointsFrom hbytes hwidth _ _ _⟩
  intro c hmem
  cases row with
  | nil => cases hmem
  | cons s row =>
      exact before_of_mem_checkpointsFrom_cons (hbytes s List.mem_cons_self)
        (hwidth s List.mem_cons_self) hmem

theorem lastWhile_mem (p : Checkpoint → Bool) (t : OffsetTable) :
    t.lastWhile p ∈ t.checkpoints := by
  unfold lastWhile
  cases h : (t.later.takeWhile p).getLast? with
  | none => exact List.mem_cons_self
  | some c =>
      have hmem := List.mem_of_getLast? h
      exact List.mem_cons_of_mem _ ((List.takeWhile_prefix p).subset hmem)

theorem lastWhile_prop (p : Checkpoint → Bool) {t : OffsetTable} (h : p t.first) :
    p (t.lastWhile p) := by
  unfold lastWhile
  cases hlast : (t.later.takeWhile p).getLast? with
  | none => exact h
  | some c => exact List.all_eq_true.1 List.all_takeWhile c (List.mem_of_getLast? hlast)

/-- A look-up of a byte is a scan of the whole row. -/
theorem indexOfByte_ofSegments {text : List Char} {row : List Segment}
    (hpos : ∀ s ∈ row, 0 < s.bytes) (offset : Nat) :
    (ofSegments text row).indexOfByte offset = Segment.indexAt row offset := by
  let c := (ofSegments text row).lastWhile (·.byte ≤ offset)
  have hle : c.byte ≤ offset :=
    of_decide_eq_true (lastWhile_prop (·.byte ≤ offset) (decide_eq_true (Nat.zero_le offset)))
  obtain ⟨lead, hrow, hbyte, hindex⟩ : c.Splits row :=
    splits_of_mem_checkpoints (lastWhile_mem _ _)
  have hlead : ∀ s ∈ lead, 0 < s.bytes := fun s hmem =>
    hpos s (hrow ▸ List.mem_append_left _ hmem)
  calc
    (ofSegments text row).indexOfByte offset
      = c.index + Segment.indexAt c.rest (offset - c.byte) := rfl
    _ = Segment.indexAt (lead ++ c.rest) offset := by
        rw [hindex, hbyte, indexAt_append hlead _ (hbyte ▸ hle)]
    _ = Segment.indexAt row offset := by rw [← hrow]

/-- A look-up of an index is a scan of the whole row. -/
theorem byteOfIndex_ofSegments {text : List Char} {row : List Segment}
    (hpos : ∀ s ∈ row, 0 < s.width) (index : Nat) :
    (ofSegments text row).byteOfIndex index = Segment.byteAt row index := by
  let c := (ofSegments text row).lastWhile (·.index ≤ index)
  have hle : c.index ≤ index :=
    of_decide_eq_true (lastWhile_prop (·.index ≤ index) (decide_eq_true (Nat.zero_le index)))
  obtain ⟨lead, hrow, hbyte, hindex⟩ : c.Splits row :=
    splits_of_mem_checkpoints (lastWhile_mem _ _)
  have hlead : ∀ s ∈ lead, 0 < s.width := fun s hmem =>
    hpos s (hrow ▸ List.mem_append_left _ hmem)
  calc
    (ofSegments text row).byteOfIndex index
      = c.byte + Segment.byteAt c.rest (index - c.index) := rfl
    _ = Segment.byteAt (lead ++ c.rest) index := by
        rw [hindex, hbyte, byteAt_append hlead _ (hindex ▸ hle)]
    _ = Segment.byteAt row index := by rw [← hrow]

end OffsetTable

/-- Both look-ups agree with a scan of the whole row of segments, for either
granularity. What a checkpoint keeps are the segments of the text from there
on, cut anew, and the checkpoints are in order. -/
theorem lookups_eq_scan (hcut : IsClustering cut) (granularity : Granularity)
    (text : List Char) :
    let row := segmentsBy cut granularity text
    let table := OffsetTable.ofSegments text row
    (∀ offset, table.indexOfByte offset = widthBefore row (min offset (byteLength text))) ∧
    (∀ index, table.byteOfIndex index =
      ((shortestLead? row index).map totalBytes).getD (byteLength text)) ∧
    (∀ c ∈ table.checkpoints, ∃ rest, dropBytes? c.byte text = some rest ∧
      segmentsBy cut granularity rest = c.rest) ∧
    table.checkpoints.Pairwise Checkpoint.Before := by
  intro row table
  have hbytes : ∀ s ∈ row, 0 < s.bytes := bytes_pos_of_mem_segmentsBy hcut granularity text
  have hwidth : ∀ s ∈ row, 0 < s.width := width_pos_of_mem_segmentsBy cut granularity text
  have htotal : totalBytes row = byteLength text := totalBytes_segmentsBy hcut granularity text
  refine ⟨?_, ?_, ?_, OffsetTable.pairwise_checkpoints hbytes hwidth⟩
  · intro offset
    rw [OffsetTable.indexOfByte_ofSegments hbytes, ← indexAt_eq_widthBefore, ← htotal,
      indexAt_min hbytes]
  · intro index
    rw [OffsetTable.byteOfIndex_ofSegments hwidth, byteAt_eq, htotal]
  · intro c hmem
    obtain ⟨lead, hrow, hbyte, -⟩ := OffsetTable.splits_of_mem_checkpoints hmem
    obtain ⟨before, after, rfl, hlead, hafter⟩ := exists_rest_of_segmentsBy hcut hrow
    exact ⟨after, by rw [hbyte, hlead, dropBytes?_append], hafter⟩

/-- The second byte of a letter with a combining accent lies inside the
letter's cluster, so its index is that of the cluster's end. -/
theorem lookups_eq_scan_accent :
    let text := ['e', '\u0301', 'a']
    IsClustering clusters ∧
      (OffsetTable.ofText .grapheme text).indexOfByte 2 =
        widthBefore (segments .grapheme text) (min 2 (byteLength text)) ∧
      widthBefore (segments .grapheme text) (min 2 (byteLength text)) = 1 :=
  ⟨isClustering_clusters, (lookups_eq_scan isClustering_clusters .grapheme _).1 2, by decide⟩

end StyleSense.Text
