/-
# Previews are well nested

A preview is a rule: blocks within blocks, with declarations in the innermost one.
Each of its lines opens a block, declares a property or closes the innermost block,
behind two blanks for each block that is still open around it. The outermost block
is closed by the last line and by no other. In front of the rule may stand a block
of its own that gives the property a value type.

There is a preview unless the value holds something that no stylesheet can, or
there is nothing to declare and no line but those of the selector.
-/

import StyleSense.Proofs.Color.Written
import StyleSense.Style.Preview

namespace StyleSense.Style

/-- What a line of a rule does. -/
inductive Row
  | opens (head : String)
  | declares (property text : String)
  | closes

/-- What the rows do and how they are written, where these blocks are open, the
innermost first. No block is open behind the last row, and behind every other row
one is. -/
inductive Nested : List String → List Row → List String → Prop
  | done : Nested [] [] []
  | opens {blocks : List String} {rows : List Row} {lines : List String} (head : String)
      (h : Nested (head :: blocks) rows lines) :
      Nested blocks (.opens head :: rows) ((indent blocks.length ++ head ++ " \x7b") :: lines)
  | declares {block : String} {blocks : List String} {rows : List Row} {lines : List String}
      (property text : String) (h : Nested (block :: blocks) rows lines) :
      Nested (block :: blocks) (.declares property text :: rows)
        ((indent (block :: blocks).length ++ property ++ ": " ++ text ++ ";") :: lines)
  | closes {block : String} {blocks : List String} {rows : List Row} {lines : List String}
      (hlast : blocks = [] → rows = []) (h : Nested blocks rows lines) :
      Nested (block :: blocks) (.closes :: rows) ((indent blocks.length ++ "\x7d") :: lines)

/-- The values to declare: the items of an array, and any other value itself. -/
def elements : Evaluation → List Evaluation
  | .known (.array items) _ => items
  | value => [value]

/-- Values that a stylesheet can hold, or that are not known but have a name. -/
def IsRenderable : Evaluation → Prop
  | .known .null _ | .known .undefined _ | .known (.string _) _ | .known (.number _) _
  | .reference .. => True
  | _ => False

namespace Site

/-- The block in front that gives the property its value type. -/
def typeBlock (s : Site) : List String :=
  match s.valueType with
  | some valueType =>
      ["@property " ++ dashify s.property ++ " \x7b", "  syntax: \"<" ++ valueType ++ ">\";",
        "\x7d", ""]
  | none => []

/-- The rows of a rule with these declarations. -/
def rows (s : Site) (texts : List String) : List Row :=
  s.atRules.map .opens ++ .opens s.selector :: texts.map (.declares (dashify s.property)) ++
    List.replicate (s.atRules.length + 1) .closes

/-- Where nothing is declared and no line but those of the selector is written. -/
def IsBare (s : Site) : Prop :=
  s.atRules = [] ∧ s.valueType = none

end Site

variable {blocks rules texts lines : List String} {rows : List Row}

theorem nested_openRules (h : Nested (rules.reverse ++ blocks) rows lines) :
    Nested blocks (rules.map .opens ++ rows) (openRules blocks.length rules ++ lines) := by
  induction rules generalizing blocks with
  | nil => exact h
  | cons rule rules ih =>
      rw [List.reverse_cons, List.append_assoc] at h
      exact .opens rule (ih h)

theorem nested_closeRules (blocks : List String) :
    Nested blocks (List.replicate blocks.length .closes) (closeRules blocks.length) := by
  induction blocks with
  | nil => exact .done
  | cons block blocks ih =>
      refine .closes ?_ ih
      rintro rfl
      rfl

theorem nested_declared {block : String} (property : String) (texts : List String)
    (h : Nested (block :: blocks) rows lines) :
    Nested (block :: blocks) (texts.map (.declares property) ++ rows)
      ((texts.map fun text => indent (blocks.length + 1) ++ property ++ ": " ++ text ++ ";") ++
        lines) := by
  induction texts with
  | nil => exact h
  | cons text texts ih => exact .declares property text ih

/-- The lines of a rule behind the block of its value type. -/
def ruleBlock (s : Site) (texts : List String) : List String :=
  openRules 0 s.atRules ++
    (opening s.atRules.length s.selector ::
      ((texts.map fun text =>
          indent (s.atRules.length + 1) ++ dashify s.property ++ ": " ++ text ++ ";") ++
        closeRules (s.atRules.length + 1)))

theorem ruleLines_eq (s : Site) (texts : List String) :
    ruleLines s (dashify s.property) texts = s.typeBlock ++ ruleBlock s texts := by
  have hindent : indent 0 = "" := rfl
  cases hvalueType : s.valueType with
  | none => simp [ruleLines, Site.typeBlock, ruleBlock, closeRules, hvalueType]
  | some valueType =>
      simp [ruleLines, Site.typeBlock, ruleBlock, closeRules, hvalueType, typeLines, opening,
        closing, hindent]

theorem nested_ruleBlock (s : Site) (texts : List String) :
    Nested [] (s.rows texts) (ruleBlock s texts) := by
  have hclosed := nested_closeRules (s.selector :: s.atRules.reverse)
  have hdeclared := Nested.opens s.selector (nested_declared (dashify s.property) texts hclosed)
  rw [← List.append_nil s.atRules.reverse] at hdeclared
  have := nested_openRules hdeclared
  simpa only [Site.rows, ruleBlock, List.append_assoc, List.cons_append, List.append_nil,
    List.length_cons, List.length_reverse, List.length_nil, opening] using this

theorem length_openRules (level : Nat) (rules : List String) :
    (openRules level rules).length = rules.length := by
  induction rules generalizing level with
  | nil => rfl
  | cons rule rules ih => rw [openRules, List.length_cons, List.length_cons, ih]

theorem length_closeRules (count : Nat) : (closeRules count).length = count := by
  induction count with
  | zero => rfl
  | succ count ih => rw [closeRules, List.length_cons, ih]

theorem two_lt_length_iff (s : Site) (texts : List String) :
    2 < (s.typeBlock ++ ruleBlock s texts).length ↔ ¬(texts = [] ∧ s.IsBare) := by
  have htypeBlock : s.typeBlock.length = 0 ↔ s.valueType = none := by
    unfold Site.typeBlock
    cases s.valueType <;> simp
  simp only [ruleBlock, List.length_append, length_openRules, List.length_cons, List.length_map,
    length_closeRules, Site.IsBare, ← htypeBlock, ← List.length_eq_zero_iff]
  omega

theorem isSome_scalarText? (normalize : Normalization) (property : String) (e : Evaluation) :
    (scalarText? normalize property e).isSome = true ↔ IsRenderable e := by
  cases e with
  | dynamic => simp [scalarText?, IsRenderable]
  | reference => simp [scalarText?, IsRenderable]
  | known v => cases v <;> simp [scalarText?, IsRenderable]

theorem declaredTexts?_eq_mapM (normalize : Normalization) (property : String)
    (value : Evaluation) :
    declaredTexts? normalize property value =
      (elements value).mapM (scalarText? normalize property) := by
  fun_cases elements value with
  | case1 items span => rfl
  | case2 _ hother =>
      rw [declaredTexts?.eq_2 _ _ _ hother, List.mapM_cons, List.mapM_nil]
      cases scalarText? normalize property value <;> rfl

theorem isSome_declaredTexts? (normalize : Normalization) (property : String)
    (value : Evaluation) :
    (declaredTexts? normalize property value).isSome = true ↔
      ∀ e ∈ elements value, IsRenderable e := by
  rw [declaredTexts?_eq_mapM, Color.isSome_mapM]
  simp only [isSome_scalarText?]

theorem preview?_eq_some_iff {normalize : Normalization} {s : Site} {value : Evaluation}
    {p : Preview} :
    preview? normalize s value = some p ↔
      ∃ texts, declaredTexts? normalize s.property value = some texts ∧
        ¬(texts = [] ∧ s.IsBare) ∧ p.lines = s.typeBlock ++ ruleBlock s texts := by
  rw [preview?, Option.bind_eq_some_iff]
  refine exists_congr fun texts => and_congr_right fun _ => ?_
  rw [ruleLines_eq]
  dsimp only
  rw [← two_lt_length_iff, Option.ite_none_right_eq_some, Option.some_inj, eq_comm]
  exact and_congr_right fun _ => ⟨congrArg Preview.lines, fun h => by cases p; cases h; rfl⟩

/-- There is no preview exactly if a stylesheet cannot hold some element of the
value, or if there are no elements, no rules and no value type. A preview shows each
element, in order, in one declaration of the property, within the selector, and that
within the rules around it, those of keyframes before those of the path. -/
theorem preview?_nested (normalize : Normalization) (s : Site) (value : Evaluation) :
    (preview? normalize s value = none ↔
      ¬(∀ e ∈ elements value, IsRenderable e) ∨ elements value = [] ∧ s.IsBare) ∧
    (∀ p, preview? normalize s value = some p →
      ∃ texts lines, p.lines = s.typeBlock ++ lines ∧ Nested [] (s.rows texts) lines ∧
        List.Forall₂ (fun e text => scalarText? normalize s.property e = some text)
          (elements value) texts) ∧
    s.atRules = (if s.call = .keyframes then ["@keyframes " ++ s.caller.getD "unknown"] else []) ++
      s.path.filter (startsWith '@') := by
  have hforall {texts : List String}
      (h : declaredTexts? normalize s.property value = some texts) :=
    Color.forall₂_of_mapM_eq_some (declaredTexts?_eq_mapM normalize s.property value ▸ h)
  refine ⟨?_, ?_, ?_⟩
  · rw [← isSome_declaredTexts? normalize s.property]
    cases htexts : declaredTexts? normalize s.property value with
    | none => simp [preview?, htexts]
    | some texts =>
        have hempty : elements value = [] ↔ texts = [] := by
          rw [← List.length_eq_zero_iff, ← List.length_eq_zero_iff, (hforall htexts).length_eq]
        have hsome : (∃ p, preview? normalize s value = some p) ↔ ¬(texts = [] ∧ s.IsBare) := by
          simp only [preview?_eq_some_iff, htexts, Option.some_inj, exists_eq_left']
          exact ⟨fun ⟨_, hbare, _⟩ => hbare, fun hbare => ⟨⟨_⟩, hbare, rfl⟩⟩
        rw [hempty, ← Option.not_isSome_iff_eq_none, Option.isSome_iff_exists, hsome]
        simp
  · intro p hp
    obtain ⟨texts, htexts, -, hlines⟩ := preview?_eq_some_iff.1 hp
    exact ⟨texts, ruleBlock s texts, hlines, nested_ruleBlock s texts, hforall htexts⟩
  · rw [Site.atRules]
    split <;> rfl

/-- A declaration in keyframes, with a value type and a fallback that is not known. -/
def fadeSite : Site :=
  { call := .keyframes, caller := some "fade", parents := ["from", "@media print"],
    key := "marginTop", valueType := some "length" }

def fadeValue : Evaluation :=
  .known (.array [.known (.string "0.5em") ⟨3, 10⟩, .reference "gap" ⟨12, 15⟩]) ⟨2, 16⟩

def fadeLines : List String :=
  ["@property margin-top \x7b", "  syntax: \"<length>\";", "\x7d", "",
    "@keyframes fade \x7b",
    "  @media print \x7b",
    "    from \x7b",
    "      margin-top: .5em;",
    "      margin-top: var(--gap);",
    "    \x7d",
    "  \x7d",
    "\x7d"]

theorem preview?_nested_fade :
    preview? (Normalizer.mk false) fadeSite fadeValue = some ⟨fadeLines⟩ ∧
      ∃ texts lines, fadeLines = fadeSite.typeBlock ++ lines ∧
        Nested [] (fadeSite.rows texts) lines ∧
        List.Forall₂ (fun e text =>
          scalarText? (Normalizer.mk false) fadeSite.property e = some text)
          (elements fadeValue) texts := by
  have hpreview : preview? (Normalizer.mk false) fadeSite fadeValue = some ⟨fadeLines⟩ := by
    decide +kernel
  exact ⟨hpreview, (preview?_nested _ fadeSite fadeValue).2.1 _ hpreview⟩

end StyleSense.Style
