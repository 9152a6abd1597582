/-
# Cuts

A part of a text is named by the bytes at which it starts and ends. It is cut
out exactly if the text is put together from what comes before it, the part and
what comes after it. Where all characters are ASCII, bytes, code units and
characters count the same.
-/

import StyleSense.Proofs.Text.Offsets
import StyleSense.Text.Measure

namespace StyleSense.Text

theorem dropBytes?_eq_some_iff {n : Nat} {cs rest : List Char} :
    dropBytes? n cs = some rest ↔ ∃ lead, cs = lead ++ rest ∧ byteLength lead = n := by
  constructor
  · intro h
    fun_induction dropBytes? n cs with
    | case1 cs =>
        cases h
        exact ⟨[], rfl, rfl⟩
    | case2 n => cases h
    | case3 n c cs hsize ih =>
        obtain ⟨lead, rfl, hlead⟩ := ih h
        refine ⟨c :: lead, rfl, ?_⟩
        rw [byteLength_cons]
        omega
    | case4 n c cs hsize => cases h
  · rintro ⟨lead, rfl, rfl⟩
    exact dropBytes?_append lead rest

theorem takeBytes?_append (a b : List Char) : takeBytes? (byteLength a) (a ++ b) = some a := by
  induction a with
  | nil => cases b <;> rfl
  | cons c a ih =>
      have hpos := c.utf8Size_pos
      obtain ⟨n, hn⟩ : ∃ n, byteLength (c :: a) = n + 1 :=
        ⟨byteLength (c :: a) - 1, by rw [byteLength_cons]; omega⟩
      have hrest : n + 1 - c.utf8Size = byteLength a := by
        rw [← hn, byteLength_cons]
        omega
      rw [hn, List.cons_append, takeBytes?, if_pos (by rw [← hn, byteLength_cons]; omega), hrest,
        ih, Option.map_some]

/-- Two starts of one text that take as many bytes are the same. -/
theorem append_inj_of_byteLength_eq {a b a' b' : List Char} (h : a ++ b = a' ++ b')
    (hlength : byteLength a = byteLength a') : a = a' ∧ b = b' := by
  have hlead : a = a' := by
    apply Option.some.inj
    rw [← takeBytes?_append a b, ← takeBytes?_append a' b', h, hlength]
  subst hlead
  exact ⟨rfl, List.append_cancel_left h⟩

theorem takeBytes?_eq_some_iff {n : Nat} {cs part : List Char} :
    takeBytes? n cs = some part ↔ ∃ rest, cs = part ++ rest ∧ byteLength part = n := by
  constructor
  · intro h
    fun_induction takeBytes? n cs generalizing part with
    | case1 cs =>
        cases h
        exact ⟨cs, rfl, rfl⟩
    | case2 n => cases h
    | case3 n c cs hsize ih =>
        obtain ⟨lead, hlead, rfl⟩ := Option.map_eq_some_iff.1 h
        obtain ⟨rest, rfl, hlength⟩ := ih hlead
        refine ⟨rest, rfl, ?_⟩
        rw [byteLength_cons]
        omega
    | case4 n c cs hsize => cases h
  · rintro ⟨rest, rfl, rfl⟩
    exact takeBytes?_append part rest

/-- What is between two bytes. -/
theorem slice?_eq_some_iff {cs part : List Char} {start stop : Nat} :
    slice? cs start stop = some part ↔
      ∃ before after, cs = before ++ part ++ after ∧ byteLength before = start ∧
        byteLength (before ++ part) = stop := by
  constructor
  · intro h
    unfold slice? at h
    split at h
    · cases h
    · obtain ⟨rest, hrest, hpart⟩ := Option.bind_eq_some_iff.1 h
      obtain ⟨before, rfl, hbefore⟩ := dropBytes?_eq_some_iff.1 hrest
      obtain ⟨after, rfl, hlength⟩ := takeBytes?_eq_some_iff.1 hpart
      refine ⟨before, after, (List.append_assoc ..).symm, hbefore, ?_⟩
      rw [byteLength_append]
      omega
  · rintro ⟨before, after, rfl, rfl, rfl⟩
    rw [byteLength_append, slice?, if_neg (by omega), Nat.add_sub_cancel_left, List.append_assoc,
      dropBytes?_append, Option.bind_some, takeBytes?_append]

theorem slice_eq_ok {cs part : List Char} {start stop : Nat}
    (h : slice? cs start stop = some part) : slice cs start stop = .ok part := by
  rw [slice, h]

theorem isBoundary_iff {cs : List Char} {n : Nat} :
    isBoundary cs n = true ↔ ∃ lead rest, cs = lead ++ rest ∧ byteLength lead = n := by
  rw [isBoundary, Option.isSome_iff_exists, exists_comm]
  exact exists_congr fun rest => dropBytes?_eq_some_iff

theorem isBoundary_zero (cs : List Char) : isBoundary cs 0 = true := by
  cases cs <;> rfl

theorem le_byteLength_of_isBoundary {cs : List Char} {n : Nat} (h : isBoundary cs n = true) :
    n ≤ byteLength cs := by
  obtain ⟨lead, rest, rfl, rfl⟩ := isBoundary_iff.1 h
  rw [byteLength_append]
  exact Nat.le_add_right ..

/-- No byte inside a character is a boundary. -/
theorem not_isBoundary_inside {lead rest : List Char} {c : Char} {n : Nat}
    (hafter : byteLength lead < n) (hbefore : n < byteLength lead + c.utf8Size) :
    isBoundary (lead ++ c :: rest) n = false := by
  rw [Bool.eq_false_iff, ne_eq, isBoundary_iff]
  rintro ⟨lead', rest', heq, rfl⟩
  rcases List.append_eq_append_iff.1 heq with ⟨part, rfl, hpart⟩ | ⟨part, rfl, -⟩
  · cases part with
    | nil =>
        rw [List.append_nil] at hafter
        exact Nat.lt_irrefl _ hafter
    | cons d part =>
        obtain ⟨rfl, -⟩ := List.cons.inj hpart
        rw [byteLength_append, byteLength_cons] at hbefore
        omega
  · rw [byteLength_append] at hafter
    omega

/-- The places between which a part of a text can be cut out: in order, within
the text, and between two characters. -/
structure Cuttable (cs : List Char) (start stop : Nat) : Prop where
  ordered : start ≤ stop
  inside : stop ≤ byteLength cs
  starts : isBoundary cs start = true
  stops : isBoundary cs stop = true

/-- What is cut out is a text, and all else is refused. -/
theorem exists_slice_iff {cs : List Char} {start stop : Nat} :
    (∃ part, slice cs start stop = .ok part) ↔ Cuttable cs start stop := by
  have hslice : (∃ part, slice cs start stop = .ok part) ↔ ∃ part, slice? cs start stop = some part := by
    rw [slice]
    cases slice? cs start stop <;> simp
  rw [hslice]
  constructor
  · rintro ⟨part, hpart⟩
    obtain ⟨before, after, rfl, rfl, rfl⟩ := slice?_eq_some_iff.1 hpart
    refine ⟨?_, ?_, isBoundary_iff.2 ⟨before, part ++ after, List.append_assoc .., rfl⟩,
      isBoundary_iff.2 ⟨before ++ part, after, rfl, rfl⟩⟩
    · rw [byteLength_append]
      exact Nat.le_add_right _ _
    · rw [byteLength_append (before ++ part)]
      exact Nat.le_add_right _ _
  · intro h
    obtain ⟨before, rest, rfl, rfl⟩ := isBoundary_iff.1 h.starts
    obtain ⟨lead, after, heq, rfl⟩ := isBoundary_iff.1 h.stops
    rcases List.append_eq_append_iff.1 heq with ⟨part, rfl, rfl⟩ | ⟨part, rfl, rfl⟩
    · exact ⟨part, slice?_eq_some_iff.2 ⟨before, after, (List.append_assoc ..).symm, rfl, rfl⟩⟩
    · -- the end is no earlier than the start, so nothing is in between
      have hnil : byteLength part = 0 := by
        have hordered := h.ordered
        rw [byteLength_append] at hordered
        omega
      refine ⟨[], slice?_eq_some_iff.2 ⟨lead ++ part, rest, ?_, rfl, ?_⟩⟩
      · rw [List.append_nil]
      · rw [List.append_nil, byteLength_append, hnil, Nat.add_zero]

/-- Texts in which every character takes one byte. -/
def IsAscii (cs : List Char) : Prop :=
  ∀ c ∈ cs, c.toNat < 128

instance (cs : List Char) : Decidable (IsAscii cs) :=
  List.decidableBAll (fun c : Char => c.toNat < 128) cs

variable {a b cs : List Char}

theorem isAscii_append : IsAscii (a ++ b) ↔ IsAscii a ∧ IsAscii b :=
  List.forall_mem_append

theorem utf8Size_eq_one_iff {c : Char} : c.utf8Size = 1 ↔ c.toNat < 128 := by
  rw [Char.utf8Size_eq_one_iff, UInt32.le_iff_toNat_le]
  exact Nat.lt_succ_iff.symm

theorem utf8Size_of_lt {c : Char} (h : c.toNat < 128) : c.utf8Size = 1 :=
  utf8Size_eq_one_iff.2 h

/-- No character has more code units than bytes. -/
theorem unitLength_le_byteLength (cs : List Char) : unitLength cs ≤ byteLength cs := by
  induction cs with
  | nil => exact Nat.le_refl 0
  | cons c cs ih =>
      have hwidth : unitWidth c ≤ c.utf8Size := by
        have hpos := c.utf8Size_pos
        have hone : c.utf8Size = 1 → c.toNat < 128 := utf8Size_eq_one_iff.1
        unfold unitWidth
        split <;> omega
      show unitWidth c + unitLength cs ≤ c.utf8Size + byteLength cs
      omega

theorem byteLength_of_isAscii (h : IsAscii cs) : byteLength cs = cs.length := by
  induction cs with
  | nil => rfl
  | cons c cs ih =>
      obtain ⟨hc, hcs⟩ := List.forall_mem_cons.1 h
      rw [byteLength_cons, utf8Size_of_lt hc, ih hcs, List.length_cons, Nat.add_comm]

theorem unitLength_of_isAscii (h : IsAscii cs) : unitLength cs = cs.length := by
  induction cs with
  | nil => rfl
  | cons c cs ih =>
      obtain ⟨hc, hcs⟩ := List.forall_mem_cons.1 h
      show unitWidth c + unitLength cs = _
      rw [unitWidth, if_pos (by omega), ih hcs, List.length_cons, Nat.add_comm]

end StyleSense.Text
