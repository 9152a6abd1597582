/-
# Where names are dashed

Where a hyphen goes is told by the name as it was written: before a capital that starts
it or follows a small letter. The scan lowers a letter once it has looked back at the
one before it, so that the second of two capitals gets no hyphen, and neither does one
behind a digit, a hyphen or a letter beyond ASCII. What it writes has no capitals, and
a name without capitals is left as it is.
-/

import Mathlib
import StyleSense.Style.Name

namespace StyleSense.Style

open StyleSense.Text

variable {cs lead rest : List Char} {c : Char} {i k : Nat}

theorem isCapital_eq_isUpper (c : Char) : isCapital c = c.isUpper := by
  simp [isCapital, Char.isUpper, Char.le_def]

theorem isCapital_of_mem_dashFrom {previous : Option Char} (h : c ∈ dashFrom previous cs) :
    isCapital c = false := by
  induction cs generalizing previous with
  | nil => cases h
  | cons d cs ih =>
      have hbehind (h : c ∈ d.toLower :: dashFrom (some d) cs) : isCapital c = false := by
        rcases List.mem_cons.1 h with rfl | hrest
        · rw [isCapital_eq_isUpper, Char.isUpper_toLower_eq_false]
        · exact ih hrest
      rw [dashFrom] at h
      split at h
      · rcases List.mem_cons.1 h with rfl | h
        · rfl
        · exact hbehind h
      · exact hbehind h

theorem dashFrom_eq_self (h : ∀ c ∈ cs, isCapital c = false) (previous : Option Char) :
    dashFrom previous cs = cs := by
  induction cs generalizing previous with
  | nil => rfl
  | cons c cs ih =>
      obtain ⟨hc, hcs⟩ := List.forall_mem_cons.1 h
      have hlower : c.toLower = c :=
        Char.toLower_eq_of_not_isUpper (by rw [← isCapital_eq_isUpper, hc]; decide)
      rw [dashFrom, hc, Bool.false_and, if_neg (by decide), ih hcs, hlower]

theorem toList_dashify (s : String) : (dashify s).toList = dashFrom none s.toList :=
  String.toList_ofList

theorem dashify_dashify (s : String) : dashify (dashify s) = dashify s := by
  rw [dashify, toList_dashify]
  exact congrArg String.ofList (dashFrom_eq_self (fun _ => isCapital_of_mem_dashFrom) none)

/-- The character at place `i` is a capital that starts a word of its own. -/
structure StartsWord (cs : List Char) (i : Nat) : Prop where
  capital : ∃ c, cs[i]? = some c ∧ isCapital c = true
  /-- Nothing is in front of it, or a small letter. -/
  starts : i = 0 ∨ ∃ p, cs[i - 1]? = some p ∧ isSmall p = true

instance (cs : List Char) (i : Nat) : Decidable (StartsWord cs i) :=
  decidable_of_iff (cs[i]?.any isCapital ∧ (i = 0 ∨ cs[i - 1]?.any isSmall)) (by
    simp only [Option.any_eq_true]
    exact ⟨fun ⟨hcapital, hstarts⟩ => ⟨hcapital, hstarts⟩, fun h => ⟨h.capital, h.starts⟩⟩)

theorem StartsWord.lt_length (h : StartsWord cs i) : i < cs.length := by
  obtain ⟨c, hc, -⟩ := h.capital
  exact (List.getElem?_eq_some_iff.1 hc).1

/-- The test of a character behind `lead`, with `lead` and what follows joined to one
text. -/
theorem startsWord_append_iff :
    StartsWord (lead ++ c :: rest) lead.length ↔
      isCapital c = true ∧ lead.getLast?.all isSmall = true := by
  have hat : (lead ++ c :: rest)[lead.length]? = some c := by
    rw [List.getElem?_append_right (Nat.le_refl _), Nat.sub_self, List.getElem?_cons_zero]
  have hstarts :
      (lead.length = 0 ∨ ∃ p, (lead ++ c :: rest)[lead.length - 1]? = some p ∧
          isSmall p = true) ↔
        lead.getLast?.all isSmall = true := by
    cases hlast : lead.getLast? with
    | none => simp [List.getLast?_eq_none_iff.1 hlast]
    | some p =>
        have hne : lead ≠ [] := by
          rintro rfl
          cases hlast
        have hlength := List.length_pos_iff.2 hne
        rw [List.getElem?_append_left (by omega), ← List.getLast?_eq_getElem?, hlast]
        simp [hne]
  rw [← hstarts]
  constructor
  · intro h
    obtain ⟨d, hd, hcapital⟩ := h.capital
    cases hat.symm.trans hd
    exact ⟨hcapital, h.starts⟩
  · rintro ⟨hcapital, hfirst⟩
    exact ⟨⟨c, hat, hcapital⟩, hfirst⟩

/-- Behind `lead`, a character is lowered, with a hyphen in front if it starts a word. -/
theorem dashFrom_cons (lead : List Char) (c : Char) (rest : List Char) :
    dashFrom lead.getLast? (c :: rest) =
      (if StartsWord (lead ++ c :: rest) lead.length then ['-'] else []) ++
        c.toLower :: dashFrom (lead ++ [c]).getLast? rest := by
  rw [dashFrom, List.getLast?_concat]
  simp only [startsWord_append_iff, Bool.and_eq_true]
  split <;> rfl

/-- Where what stands for the text from place `i` on begins in the dashed text, one place
further on for each word that starts before. -/
def dashedPlace (cs : List Char) (i : Nat) : Nat :=
  i + (List.range i).countP fun j => StartsWord cs j

theorem dashedPlace_succ (cs : List Char) (i : Nat) :
    dashedPlace cs (i + 1) = dashedPlace cs i + if StartsWord cs i then 2 else 1 := by
  rw [dashedPlace, dashedPlace, List.range_succ, List.countP_append, List.countP_singleton]
  by_cases h : StartsWord cs i
  · rw [if_pos h, if_pos (decide_eq_true h)]
    omega
  · rw [if_neg h, if_neg (by simpa using h)]
    omega

theorem strictMono_dashedPlace (cs : List Char) : StrictMono (dashedPlace cs) := by
  apply strictMono_nat_of_lt_succ
  intro i
  rw [dashedPlace_succ]
  split <;> omega

/-- The places in the dashed text of the hyphens that dashing puts in. -/
def hyphens (cs : List Char) : List Nat :=
  ((List.range cs.length).filter fun i => StartsWord cs i).map (dashedPlace cs)

theorem mem_hyphens_iff : k ∈ hyphens cs ↔ ∃ i, StartsWord cs i ∧ dashedPlace cs i = k := by
  simp only [hyphens, List.mem_map, List.mem_filter, List.mem_range, decide_eq_true_eq]
  constructor
  · rintro ⟨i, ⟨-, h⟩, hk⟩
    exact ⟨i, h, hk⟩
  · rintro ⟨i, h, hk⟩
    exact ⟨i, ⟨h.lt_length, h⟩, hk⟩

theorem dashedPlace_mem_hyphens_iff : dashedPlace cs i ∈ hyphens cs ↔ StartsWord cs i := by
  rw [mem_hyphens_iff]
  constructor
  · rintro ⟨j, h, hj⟩
    rwa [← (strictMono_dashedPlace cs).injective hj]
  · intro h
    exact ⟨i, h, rfl⟩

/-- A hyphen is followed by the letter it was put in for. -/
theorem StartsWord.succ_not_mem_hyphens (h : StartsWord cs i) :
    dashedPlace cs i + 1 ∉ hyphens cs := by
  rw [mem_hyphens_iff]
  rintro ⟨j, -, hj⟩
  have hnext : dashedPlace cs (i + 1) = dashedPlace cs i + 2 := by
    rw [dashedPlace_succ, if_pos h]
  have hij : i < j := (strictMono_dashedPlace cs).lt_iff_lt.1 (by omega)
  have hji : j < i + 1 := (strictMono_dashedPlace cs).lt_iff_lt.1 (by omega)
  omega

/-- What is behind `lead` comes out lowered once the hyphens are left out. -/
theorem filter_dashFrom (lead rest : List Char) :
    (((dashFrom lead.getLast? rest).zipIdx (dashedPlace (lead ++ rest) lead.length)).filter
        fun x => x.2 ∉ hyphens (lead ++ rest)).map Prod.fst = lowerAscii rest := by
  induction rest generalizing lead with
  | nil => rfl
  | cons c rest ih =>
      have hrest := ih (lead ++ [c])
      rw [List.length_append, List.length_singleton, List.append_assoc, List.singleton_append,
        dashedPlace_succ] at hrest
      rw [dashFrom_cons]
      by_cases h : StartsWord (lead ++ c :: rest) lead.length
      · have hhyphen := dashedPlace_mem_hyphens_iff.2 h
        have hletter := h.succ_not_mem_hyphens
        rw [if_pos h] at hrest ⊢
        rw [List.singleton_append, List.zipIdx_cons, List.zipIdx_cons,
          List.filter_cons_of_neg (by simpa using hhyphen),
          List.filter_cons_of_pos (by simpa using hletter), List.map_cons, hrest]
        rfl
      · have hletter := mt dashedPlace_mem_hyphens_iff.1 h
        rw [if_neg h] at hrest ⊢
        rw [List.nil_append, List.zipIdx_cons, List.filter_cons_of_pos (by simpa using hletter),
          List.map_cons, hrest]
        rfl

/-- Behind what stands for `lead`, the dashed text goes on with what stands for the
rest. -/
theorem drop_dashFrom (lead rest : List Char) :
    (dashFrom none (lead ++ rest)).drop (dashedPlace (lead ++ rest) lead.length) =
      dashFrom lead.getLast? rest := by
  induction lead using List.reverseRecOn generalizing rest with
  | nil => rfl
  | append_singleton lead c ih =>
      have hlead := ih (c :: rest)
      rw [dashFrom_cons] at hlead
      rw [List.append_assoc, List.singleton_append, List.length_append, List.length_singleton,
        dashedPlace_succ, ← List.drop_drop, hlead]
      split <;> rfl

/-- The hyphen for a capital that starts a word stands directly before it. -/
theorem StartsWord.getElem?_dashFrom (h : StartsWord cs i) :
    (dashFrom none cs)[dashedPlace cs i]? = some '-' ∧
      (dashFrom none cs)[dashedPlace cs i + 1]? = cs[i]?.map Char.toLower := by
  have hlt := h.lt_length
  have hsplit : cs.take i ++ cs[i] :: cs.drop (i + 1) = cs := by
    rw [List.getElem_cons_drop, List.take_append_drop]
  have hlength : (cs.take i).length = i := List.length_take_of_le (Nat.le_of_lt hlt)
  have hdrop := drop_dashFrom (cs.take i) (cs[i] :: cs.drop (i + 1))
  rw [dashFrom_cons, hsplit, hlength, if_pos h] at hdrop
  have hat (j : Nat) : (dashFrom none cs)[dashedPlace cs i + j]? = _ :=
    List.getElem?_drop.symm.trans (congrArg (·[j]?) hdrop)
  rw [List.getElem?_eq_getElem hlt]
  exact ⟨hat 0, hat 1⟩

/-- Two hyphens in front stay there, and no hyphen is put in before them, between them or
right behind them. -/
theorem hyphens_of_custom {s : String} (h : "--".toList <+: s.toList) :
    "--".toList <+: (dashify s).toList ∧ ∀ k ∈ hyphens s.toList, 2 < k := by
  obtain ⟨rest, hrest⟩ := h
  rw [toList_dashify, ← hrest]
  have hbehind (i : Nat) (h : StartsWord ('-' :: '-' :: rest) i) : 2 < i := by
    obtain ⟨c, hc, hcapital⟩ := h.capital
    match i with
    | 0 | 1 =>
        cases hc
        cases hcapital
    | 2 =>
        obtain hzero | ⟨p, hp, hsmall⟩ := h.starts
        · cases hzero
        · cases hp
          cases hsmall
    | i + 3 => exact Nat.le_add_left 3 i
  refine ⟨⟨dashFrom (some '-') rest, rfl⟩, ?_⟩
  intro k hk
  obtain ⟨i, hword, rfl⟩ := mem_hyphens_iff.1 hk
  exact Nat.lt_of_lt_of_le (hbehind i hword) (Nat.le_add_right ..)

/-- A dashed name has no capitals, and it is dashed already. Without the hyphens that are
put in it is the name with its letters lowered, and there is one directly before each
capital that starts a word. None is put in at two hyphens that the name starts with. -/
theorem dashify_exact (s : String) :
    (∀ c ∈ (dashify s).toList, isCapital c = false) ∧
      dashify (dashify s) = dashify s ∧
      ((dashify s).toList.zipIdx.filter fun x => x.2 ∉ hyphens s.toList).map Prod.fst =
        lowerAscii s.toList ∧
      (∀ i, StartsWord s.toList i →
        (dashify s).toList[dashedPlace s.toList i]? = some '-' ∧
          (dashify s).toList[dashedPlace s.toList i + 1]? = s.toList[i]?.map Char.toLower) ∧
      ("--".toList <+: s.toList →
        "--".toList <+: (dashify s).toList ∧ ∀ k ∈ hyphens s.toList, 2 < k) := by
  refine ⟨?_, dashify_dashify s, ?_, ?_, hyphens_of_custom⟩
  all_goals rw [toList_dashify]
  · intro c
    exact isCapital_of_mem_dashFrom
  · exact filter_dashFrom [] s.toList
  · intro i
    exact StartsWord.getElem?_dashFrom

/-- A capital right behind the two hyphens starts no word, one behind a small letter
does. -/
theorem dashify_exact_custom :
    "--".toList <+: "--MyVar".toList ∧ StartsWord "--MyVar".toList 4 ∧
      "--".toList <+: (dashify "--MyVar").toList ∧
      (dashify "--MyVar").toList[dashedPlace "--MyVar".toList 4]? = some '-' := by
  have hcustom : "--".toList <+: "--MyVar".toList := by decide
  have hword : StartsWord "--MyVar".toList 4 := by decide
  obtain ⟨-, -, -, hhyphen, hkept⟩ := dashify_exact "--MyVar"
  exact ⟨hcustom, hword, (hkept hcustom).1, (hhyphen 4 hword).1⟩

/-- Of a run of capitals only the first one starts a word. -/
example : dashify "WebkitURL" = "-webkit-url" ∧ hyphens "WebkitURL".toList = [0, 7] := by
  decide

end StyleSense.Style
