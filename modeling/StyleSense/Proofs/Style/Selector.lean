/-
# The selector of a style

The selector of a style is a class with its pseudo-classes behind it. The parts are
put in falling order by their code points, so it takes the first character of the
name to tell whether they come out like that. If it is above the colon, the name is
in front. If it is below, as a digit, a hyphen or a dollar sign is, the name is at
the end, behind the pseudo-classes.
-/

import Mathlib.Data.List.Lex
import Mathlib.Data.List.Sort
import StyleSense.Proofs.Style.Preview

namespace StyleSense.Style

open StyleSense.Text

theorem compareCodePoints_eq_gt_iff (a b : List Char) :
    compareCodePoints a b = .gt ↔ b.map Char.toNat < a.map Char.toNat := by
  induction a generalizing b with
  | nil => cases b <;> simp [compareCodePoints]
  | cons x xs ih =>
      cases b with
      | nil => simp [compareCodePoints]
      | cons y ys =>
          rw [compareCodePoints, List.map_cons, List.map_cons, List.cons_lt_cons_iff, ← ih ys]
          rcases Nat.lt_trichotomy x.toNat y.toNat with hlt | heq | hgt
          · rw [Nat.compare_eq_lt.2 hlt]
            simp
            omega
          · simp [heq]
          · simp [Nat.compare_eq_gt.2 hgt, hgt]

theorem notAfter_iff (a b : String) :
    Site.notAfter a b = true ↔ a.toList.map Char.toNat ≤ b.toList.map Char.toNat := by
  rw [Site.notAfter, decide_eq_true_eq, Ne, compareCodePoints_eq_gt_iff, not_lt]

theorem pairwise_mergeSort_notAfter (parts : List String) :
    (parts.mergeSort Site.notAfter).Pairwise fun a b => Site.notAfter a b = true := by
  apply List.pairwise_mergeSort
  · intro a b c hab hbc
    rw [notAfter_iff] at *
    exact le_trans hab hbc
  · intro a b
    rw [Bool.or_eq_true, notAfter_iff, notAfter_iff]
    exact le_total _ _

/-- Where texts begin differently, their first characters decide. -/
theorem notAfter_eq_decide {a b : String} {x y : Char} {xs ys : List Char}
    (ha : a.toList = x :: xs) (hb : b.toList = y :: ys) (hne : x ≠ y) :
    Site.notAfter a b = decide (x < y) := by
  have hlt : x < y ↔ x.toNat < y.toNat := UInt32.lt_iff_toNat_lt
  have hcodes : x.toNat ≠ y.toNat := fun heq => hne (Char.toNat_inj.1 heq)
  rw [Site.notAfter, ha, hb, compareCodePoints, decide_eq_decide, hlt]
  rcases Nat.lt_or_gt_of_ne hcodes with hbelow | habove
  · simp [Nat.compare_eq_lt.2 hbelow, hbelow]
  · simp [Nat.compare_eq_gt.2 habove, Nat.le_of_lt habove]

variable {part : String} {others : List String}

/-- What is sorted with others stands behind those before it and before those behind it. -/
theorem exists_mergeSort_eq_append (part : String) (others : List String) :
    ∃ before after, (part :: others).mergeSort Site.notAfter = before ++ part :: after ∧
      (before ++ after).Perm others ∧ (∀ other ∈ before, Site.notAfter other part = true) ∧
      ∀ other ∈ after, Site.notAfter part other = true := by
  have hperm := List.mergeSort_perm (part :: others) Site.notAfter
  obtain ⟨before, after, heq⟩ := List.append_of_mem (hperm.mem_iff.2 List.mem_cons_self)
  have hsorted := heq ▸ pairwise_mergeSort_notAfter (part :: others)
  obtain ⟨-, hafter, hacross⟩ := List.pairwise_append.1 hsorted
  rw [heq] at hperm
  exact ⟨before, after, heq, (List.perm_middle.symm.trans hperm).cons_inv,
    fun other hother => hacross other hother part List.mem_cons_self,
    (List.pairwise_cons.1 hafter).1⟩

theorem exists_mergeSort_eq_concat (h : ∀ other ∈ others, Site.notAfter part other = false) :
    ∃ sorted, (part :: others).mergeSort Site.notAfter = sorted ++ [part] ∧
      sorted.Perm others := by
  obtain ⟨before, after, heq, hperm, -, hafter⟩ := exists_mergeSort_eq_append part others
  have hnil : after = [] := by
    refine List.eq_nil_iff_forall_not_mem.2 fun other hother => ?_
    have hmem := hperm.mem_iff.1 (List.mem_append_right before hother)
    exact Bool.false_ne_true ((h other hmem).symm.trans (hafter other hother))
  subst hnil
  exact ⟨before, heq, by rwa [List.append_nil] at hperm⟩

theorem exists_mergeSort_eq_cons (h : ∀ other ∈ others, Site.notAfter other part = false) :
    ∃ sorted, (part :: others).mergeSort Site.notAfter = part :: sorted ∧
      sorted.Perm others := by
  obtain ⟨before, after, heq, hperm, hbefore, -⟩ := exists_mergeSort_eq_append part others
  have hnil : before = [] := by
    refine List.eq_nil_iff_forall_not_mem.2 fun other hother => ?_
    have hmem := hperm.mem_iff.1 (List.mem_append_left after hother)
    exact Bool.false_ne_true ((h other hmem).symm.trans (hbefore other hother))
  subst hnil
  exact ⟨after, heq, hperm⟩

/-- The pseudo-classes on the path to a declaration. -/
def Site.pseudoClasses (s : Site) : List String :=
  s.path.filter (startsWith ':')

variable {s : Site} {name : String} {first : Char} {tail : List Char} {rest : List String}

theorem selectorParts_eq (hcall : s.call = .create) (hparents : s.parents = name :: rest)
    (hname : name.toList = first :: tail) (hcolon : first ≠ ':') :
    s.selectorParts = name :: s.pseudoClasses := by
  have hpath : s.path = name :: (rest ++ [s.key]) := by
    rw [Site.path, hcall, hparents]
    rfl
  have hother : startsWith ':' name = false := by
    simpa [startsWith, hname] using hcolon
  rw [Site.selectorParts, Site.pseudoClasses, hpath]
  dsimp only
  rw [List.filter_cons_of_neg (by simp [hother])]

/-- A class is selected with its pseudo-classes, in some order, and the name comes
first or last. -/
theorem exists_selector_eq (hcall : s.call = .create) (hparents : s.parents = name :: rest)
    (hname : name.toList = first :: tail) (hcolon : first ≠ ':') :
    ∃ pseudos, pseudos.Perm s.pseudoClasses ∧
      s.selector = "." ++
        if ':' < first then name ++ String.join pseudos else String.join pseudos ++ name := by
  have hne : name ≠ "" := by
    rintro rfl
    cases hname
  have hpseudo : ∀ other ∈ s.pseudoClasses, ∃ cs, other.toList = ':' :: cs := by
    intro other hother
    have hhead := (List.mem_filter.1 hother).2
    simpa [startsWith, List.head?_eq_some_iff] using hhead
  rw [Site.selector, if_pos hcall, selectorParts_eq hcall hparents hname hcolon]
  split
  case isTrue habove =>
    have hlater : ∀ other ∈ s.pseudoClasses, Site.notAfter name other = false := by
      intro other hother
      obtain ⟨cs, hcs⟩ := hpseudo other hother
      rw [notAfter_eq_decide hname hcs hcolon]
      exact decide_eq_false (lt_asymm habove)
    obtain ⟨sorted, hsorted, hperm⟩ := exists_mergeSort_eq_concat hlater
    refine ⟨sorted.reverse, (List.reverse_perm sorted).trans hperm, ?_⟩
    simp [hsorted, String.join_cons, hne]
  case isFalse hbelow =>
    have hearlier : ∀ other ∈ s.pseudoClasses, Site.notAfter other name = false := by
      intro other hother
      obtain ⟨cs, hcs⟩ := hpseudo other hother
      rw [notAfter_eq_decide hcs hname (Ne.symm hcolon)]
      exact decide_eq_false hbelow
    obtain ⟨sorted, hsorted, hperm⟩ := exists_mergeSort_eq_cons hearlier
    refine ⟨sorted.reverse, (List.reverse_perm sorted).trans hperm, ?_⟩
    simp [hsorted, String.join_append, hne]

/-- A preview of a style selects its class and every pseudo-class, and the name comes
first if it begins above the colon. -/
theorem preview?_selects (hcall : s.call = .create) (hparents : s.parents = name :: rest)
    (hname : name.toList = first :: tail) (hcolon : first ≠ ':') :
    ∃ pseudos, pseudos.Perm s.pseudoClasses ∧
      ∀ normalize value p, preview? normalize s value = some p →
        ∃ behind, p.lines = s.typeBlock ++ openRules 0 s.atRules ++
          opening s.atRules.length ("." ++
            if ':' < first then name ++ String.join pseudos else String.join pseudos ++ name) ::
          behind := by
  obtain ⟨pseudos, hperm, hselector⟩ := exists_selector_eq hcall hparents hname hcolon
  refine ⟨pseudos, hperm, fun normalize value p hp => ?_⟩
  obtain ⟨texts, -, -, hlines⟩ := preview?_eq_some_iff.1 hp
  rw [hlines, ruleBlock, hselector, ← List.append_assoc]
  exact ⟨_, rfl⟩

/-- The color of a class under the pointer. -/
def hoveredSite (name : String) : Site :=
  { call := .create, caller := none, parents := [name, "color"], key := ":hover",
    valueType := none }

def blue : Evaluation :=
  .known (.string "blue") ⟨1, 7⟩

theorem preview?_hoveredSite {name : String} {first : Char} {tail : List Char}
    (hname : name.toList = first :: tail) (hcolon : first ≠ ':')
    (hpseudos : (hoveredSite name).pseudoClasses = [":hover"])
    (hproperty : (hoveredSite name).property = "color") (hrules : (hoveredSite name).atRules = []) :
    preview? (Normalizer.mk false) (hoveredSite name) blue =
      some ⟨[opening 0 ("." ++ if ':' < first then name ++ ":hover" else ":hover" ++ name),
        "  color: blue;", closing 0]⟩ := by
  obtain ⟨pseudos, hperm, hselector⟩ :=
    exists_selector_eq (s := hoveredSite name) rfl rfl hname hcolon
  rw [hpseudos, List.perm_singleton] at hperm
  subst hperm
  have hdeclared : indent 1 ++ dashify "color" ++ ": " ++ "blue" ++ ";" = "  color: blue;" := by
    decide +kernel
  refine preview?_eq_some_iff.2 ⟨["blue"], ?_, nofun, ?_⟩
  · rw [hproperty]
    decide +kernel
  · rw [ruleBlock, hselector, hrules, hproperty, List.map_singleton, List.length_nil, hdeclared]
    rfl

/-- The class comes first where its name does not begin below the colon. -/
theorem preview?_selects_button :
    let s := hoveredSite "button"
    s.call = .create ∧ s.parents = ["button", "color"] ∧
      "button".toList = 'b' :: "utton".toList ∧ 'b' ≠ ':' ∧
      preview? (Normalizer.mk false) s blue =
        some ⟨[".button:hover \x7b", "  color: blue;", "\x7d"]⟩ ∧
      ∃ pseudos, pseudos.Perm s.pseudoClasses ∧
        ∃ behind, [".button:hover \x7b", "  color: blue;", "\x7d"] =
          s.typeBlock ++ openRules 0 s.atRules ++
            opening s.atRules.length ("." ++
              if ':' < 'b' then "button" ++ String.join pseudos
              else String.join pseudos ++ "button") :: behind := by
  intro s
  have hname : "button".toList = 'b' :: "utton".toList := by decide
  have hcolon : 'b' ≠ ':' := by decide
  have hpreview : preview? (Normalizer.mk false) s blue =
      some ⟨[".button:hover \x7b", "  color: blue;", "\x7d"]⟩ :=
    (preview?_hoveredSite hname hcolon (by decide) (by decide) (by decide)).trans
      (by decide +kernel)
  obtain ⟨pseudos, hperm, hselects⟩ := preview?_selects (s := s) rfl rfl hname hcolon
  exact ⟨rfl, rfl, hname, hcolon, hpreview, pseudos, hperm, hselects _ _ _ hpreview⟩

/-- A name that begins with a dollar sign is put behind its pseudo-class, which is
no selector of the class. -/
theorem preview?_selects_not_dollar :
    preview? (Normalizer.mk false) (hoveredSite "$button") blue =
        some ⟨[".:hover$button \x7b", "  color: blue;", "\x7d"]⟩ ∧
      ∀ pseudos : List String, pseudos.Perm (hoveredSite "$button").pseudoClasses →
        "." ++ "$button" ++ String.join pseudos ≠ ".:hover$button" := by
  have hname : "$button".toList = '$' :: "button".toList := by decide
  have hpseudos : (hoveredSite "$button").pseudoClasses = [":hover"] := by decide
  refine ⟨(preview?_hoveredSite hname (by decide) hpseudos (by decide) (by decide)).trans
    (by decide +kernel), ?_⟩
  intro pseudos hperm
  rw [hpseudos, List.perm_singleton] at hperm
  subst hperm
  decide

end StyleSense.Style
