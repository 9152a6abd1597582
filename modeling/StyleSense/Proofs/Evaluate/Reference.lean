/-
# Where references come from

A reference stands for a name whose value is not known, or for what accesses to
its members give. It may pass through arrays, objects, operators and calls
before it is the value of an expression, but each reference found in a value
leads back to a name of the expression that nothing is known of, and its path
has a key for each access that was applied to it on the way.

The constants that a tracker knows are asked to hold no references: one that
does would bring in a name from elsewhere.
-/

import StyleSense.Proofs.Evaluate.Locality

namespace StyleSense

mutual

/-- An evaluation that is a reference with a path, or holds one at any depth. -/
inductive Evaluation.Mentions (path : String) : Evaluation → Prop
  | reference (span : Span) : Evaluation.Mentions path (.reference path span)
  | known {v : Value} (span : Span) (h : Value.Mentions path v) :
      Evaluation.Mentions path (.known v span)

/-- A value that holds a reference with a path at any depth. -/
inductive Value.Mentions (path : String) : Value → Prop
  | item {items : List Evaluation} {e : Evaluation} (hmem : e ∈ items)
      (h : Evaluation.Mentions path e) : Value.Mentions path (.array items)
  | entry {entries : List (String × Evaluation)} {entry : String × Evaluation}
      (hmem : entry ∈ entries) (h : Evaluation.Mentions path entry.2) :
      Value.Mentions path (.object entries)

end

variable {path : String} {v : Value} {e : Evaluation} {span : Span}

theorem Evaluation.mentions_known :
    (Evaluation.known v span).Mentions path ↔ v.Mentions path := by
  constructor
  · rintro ⟨⟩
    assumption
  · exact .known span

theorem Value.not_mentions_of_isContainer (h : v.isContainer = false) : ¬v.Mentions path := by
  rintro ⟨⟩ <;> cases h

/-- Only arrays and objects hold references. -/
theorem Evaluation.not_mentions_known (h : v.isContainer = false) :
    ¬(Evaluation.known v span).Mentions path :=
  fun hmentions => Value.not_mentions_of_isContainer h (mentions_known.1 hmentions)

theorem Evaluation.not_mentions_ofOption {value : Option Value}
    (h : ∀ v, value = some v → v.isContainer = false) :
    ¬(Evaluation.ofOption span value).Mentions path := by
  cases value with
  | none => nofun
  | some v => exact not_mentions_known (h v rfl)

/-- What is read off a value is held by it. -/
theorem mentions_of_propertyOf {key : String} (h : (propertyOf v key span).Mentions path) :
    v.Mentions path := by
  have hmissing : ¬(Evaluation.known .undefined span).Mentions path :=
    Evaluation.not_mentions_known rfl
  cases v with
  | object entries =>
      rw [propertyOf] at h
      cases hfound : Dictionary.get? key entries with
      | none =>
          rw [hfound] at h
          exact absurd h hmissing
      | some e =>
          rw [hfound] at h
          exact .entry (Dictionary.mem_of_get? hfound) h
  | array items =>
      simp only [propertyOf] at h
      split at h
      · exact absurd h (Evaluation.not_mentions_known rfl)
      · split at h
        next index _ =>
          cases hfound : items[index]? with
          | none =>
              rw [hfound] at h
              exact absurd h hmissing
          | some e =>
              rw [hfound] at h
              exact .item (List.mem_of_getElem? hfound) h
        next => cases h
  | string text =>
      -- a length, one unit, or nothing: no reference in any case
      simp only [propertyOf] at h
      split at h
      · exact absurd h (Evaluation.not_mentions_known rfl)
      · split at h
        · split at h
          · split at h
            · cases h
            · exact absurd h (Evaluation.not_mentions_known rfl)
          · exact absurd h hmissing
        · cases h
  | _ => cases h

theorem mentions_of_mem_spreadElements {item : Evaluation} (hmem : item ∈ spreadElements e)
    (h : item.Mentions path) : e.Mentions path := by
  unfold spreadElements at hmem
  split at hmem
  · exact .known _ (.item hmem h)
  · rw [List.mem_singleton.1 hmem] at h
    cases h

theorem mentions_of_mem_spreadEntries {entry : String × Evaluation}
    (hmem : entry ∈ spreadEntries e) (h : entry.2.Mentions path) : e.Mentions path := by
  unfold spreadEntries at hmem
  split at hmem
  · exact .known _ (.entry hmem h)
  · cases hmem

namespace Tracker

variable {t : Tracker} {x : String} {n : Node} {keys : List String}

/-- The path of a name with keys behind it. -/
def dotted (x : String) (keys : List String) : String :=
  keys.foldl (fun path key => path ++ "." ++ key) x

/-- Nothing is known of a name. `undefined` is not a name but a value. -/
structure Unbound (t : Tracker) (x : String) : Prop where
  ne_undefined : x ≠ "undefined"
  get?_eq_none : ∀ frame ∈ t.frames, Dictionary.get? x frame = none

/-- A name that nothing is known of leads into an expression, and takes a key with
it for each access to a member of the reference that it is then. -/
inductive Leads (t : Tracker) (x : String) : Node → List String → Prop
  | name (span : Span) (declared : Option Node) (h : t.Unbound x) :
      Leads t x (.identifier span x declared) []
  /-- The access `object.key`. -/
  | written {object : Node} {keys : List String} (span place point : Span) (key : String)
      (declared : Option Node) (h : Leads t x object keys)
      (hobject : t.evaluate object = .reference (dotted x keys) place) :
      Leads t x (.member span object (.identifier point key declared)) (keys ++ [key])
  /-- The access `object[expression]`. -/
  | computed {object expression : Node} {keys : List String} {key : String}
      (span place point : Span) (h : Leads t x object keys)
      (hobject : t.evaluate object = .reference (dotted x keys) place)
      (hkey : (t.evaluate expression).text? = some key) :
      Leads t x (.member span object (.wrapped .computed point expression)) (keys ++ [key])
  /-- Any other form, and an access to a value that holds the reference. -/
  | within {n : Node} {c : ChildRef × Node} {keys : List String} (hc : c ∈ n.children)
      (h : Leads t x c.2 keys)
      (hn : ∀ span object property path place, n = .member span object property →
        t.evaluate object ≠ .reference path place) : Leads t x n keys

/-- A path is that of a name which leads into the expression. -/
def LeadsTo (t : Tracker) (n : Node) (path : String) : Prop :=
  ∃ x keys, t.Leads x n keys ∧ path = dotted x keys

theorem dotted_concat (x : String) (keys : List String) (key : String) :
    dotted x (keys ++ [key]) = dotted x keys ++ "." ++ key :=
  List.foldl_concat _ _ _ _

theorem Leads.unbound (h : t.Leads x n keys) : t.Unbound x := by
  induction h with
  | name _ _ h => exact h
  | written _ _ _ _ _ _ _ ih => exact ih
  | computed _ _ _ _ _ _ ih => exact ih
  | within _ _ _ ih => exact ih

/-- The name is one of the expression. -/
theorem Leads.mem_names (h : t.Leads x n keys) : x ∈ n.names := by
  induction h with
  | name => exact Node.mem_names_identifier
  | written _ _ _ _ _ _ _ ih => exact Node.mem_names_of_child List.mem_cons_self ih
  | computed _ _ _ _ _ _ ih => exact Node.mem_names_of_child List.mem_cons_self ih
  | within hc _ _ ih => exact Node.mem_names_of_child hc ih

theorem LeadsTo.within {c : ChildRef × Node} (h : t.LeadsTo c.2 path) (hc : c ∈ n.children)
    (hn : ∀ span object property path place, n = .member span object property →
      t.evaluate object ≠ .reference path place) : t.LeadsTo n path := by
  obtain ⟨x, keys, hleads, hpath⟩ := h
  exact ⟨x, keys, .within hc hleads hn, hpath⟩

/-- The constants of a tracker hold no references. -/
def Grounded (t : Tracker) : Prop :=
  ∀ frame ∈ t.frames, ∀ entry ∈ frame, ∀ path, ¬Value.Mentions path entry.2

theorem Grounded.lookup? (h : t.Grounded) (hlookup : t.lookup? x = some v) :
    ¬v.Mentions path := by
  obtain ⟨frame, hframe, hfound⟩ := List.exists_of_findSome?_eq_some hlookup
  exact h frame hframe _ (Dictionary.mem_of_get? hfound) path

theorem Grounded.leads_of_name (hgrounded : t.Grounded)
    (h : (t.evaluateName x span).Mentions path) : path = x ∧ t.Unbound x := by
  unfold evaluateName at h
  split at h
  · exact absurd h (Evaluation.not_mentions_known rfl)
  next hne =>
    cases hlookup : t.lookup? x with
    | some v =>
        rw [hlookup] at h
        exact absurd (Evaluation.mentions_known.1 h) (hgrounded.lookup? hlookup)
    | none =>
        rw [hlookup] at h
        cases h
        exact ⟨rfl, hne, List.findSome?_eq_none_iff.1 hlookup⟩

theorem mentions_of_mem_argumentItems {argument : Argument Node} {item : Evaluation}
    (hmem : item ∈ t.argumentItems argument) (h : item.Mentions path) :
    (t.evaluate argument.expression).Mentions path := by
  rw [argumentItems] at hmem
  split at hmem
  · exact mentions_of_mem_spreadElements hmem h
  · rwa [← List.mem_singleton.1 hmem]

theorem exists_of_mem_evaluateElements {elements : List (Option (Argument Node))}
    {item : Evaluation} (hmem : item ∈ t.evaluateElements elements) (h : item.Mentions path) :
    ∃ argument, some argument ∈ elements ∧
      (t.evaluate argument.expression).Mentions path := by
  induction elements with
  | nil => cases hmem
  | cons element elements ih =>
      have hrest (hmem : item ∈ t.evaluateElements elements) :
          ∃ argument, some argument ∈ element :: elements ∧
            (t.evaluate argument.expression).Mentions path := by
        obtain ⟨argument, hargument, h⟩ := ih hmem
        exact ⟨argument, List.mem_cons_of_mem _ hargument, h⟩
      cases element with
      | none => exact hrest hmem
      | some argument =>
          rw [evaluateElements_some] at hmem
          rcases List.mem_append.1 hmem with hmem | hmem
          · exact ⟨argument, List.mem_cons_self, mentions_of_mem_argumentItems hmem h⟩
          · exact hrest hmem

theorem exists_of_mentions_evaluateLast {expressions : List Node}
    (h : (t.evaluateLast expressions).Mentions path) :
    ∃ m ∈ expressions, (t.evaluate m).Mentions path := by
  induction expressions with
  | nil => cases h
  | cons n rest ih =>
      cases rest with
      | nil => exact ⟨n, List.mem_cons_self, h⟩
      | cons next rest =>
          obtain ⟨m, hm, h⟩ := ih h
          exact ⟨m, List.mem_cons_of_mem _ hm, h⟩

theorem exists_of_mentions_evaluateOptional {expression : Option Node}
    (h : (t.evaluateOptional expression).Mentions path) :
    ∃ m, expression = some m ∧ (t.evaluate m).Mentions path := by
  cases expression with
  | none => cases h
  | some m => exact ⟨m, rfl, h⟩

/-- Some entry holds a reference with the path. -/
def MentionedIn (path : String) (d : Dictionary Evaluation) : Prop :=
  ∃ entry ∈ d, entry.2.Mentions path

theorem exists_of_mentionedIn_evaluateProperties {properties : List Node}
    (hone : ∀ n ∈ properties, ∀ d, MentionedIn path (t.evaluateProperties d [n]) →
      MentionedIn path d ∨ t.LeadsTo n path)
    {d : Dictionary Evaluation} (h : MentionedIn path (t.evaluateProperties d properties)) :
    MentionedIn path d ∨ ∃ n ∈ properties, t.LeadsTo n path := by
  induction properties generalizing d with
  | nil => exact .inl h
  | cons n rest ih =>
      rw [evaluateProperties_cons] at h
      rcases ih (fun m hm => hone m (List.mem_cons_of_mem _ hm)) h with h | ⟨m, hm, h⟩
      · exact (hone n List.mem_cons_self d h).imp_right fun h => ⟨n, List.mem_cons_self, h⟩
      · exact .inr ⟨m, List.mem_cons_of_mem _ hm, h⟩

theorem leadsTo_member {object property : Node}
    (hobject : ∀ path, (t.evaluate object).Mentions path → t.LeadsTo object path)
    (h : (t.evaluate (.member span object property)).Mentions path) :
    t.LeadsTo (.member span object property) path := by
  rw [evaluate_member] at h
  cases hkey : t.evaluateKey property with
  | none =>
      rw [hkey] at h
      cases h
  | some key =>
      rw [hkey] at h
      cases hvalue : t.evaluate object with
      | dynamic =>
          rw [hvalue] at h
          cases h
      | known value place =>
          rw [hvalue] at h
          have hmentions : (t.evaluate object).Mentions path :=
            hvalue ▸ .known place (mentions_of_propertyOf h)
          apply (hobject path hmentions).within (c := (.whole .object, object)) List.mem_cons_self
          rintro _ _ _ _ _ ⟨⟩ hreference
          rw [hvalue] at hreference
          cases hreference
      | reference inner place =>
          rw [hvalue] at h
          cases h
          obtain ⟨x, keys, hleads, rfl⟩ := hobject inner (hvalue ▸ .reference place)
          refine ⟨x, keys ++ [key], ?_, (dotted_concat x keys key).symm⟩
          cases property with
          | identifier point name declared =>
              cases hkey
              exact .written span place point _ declared hleads hvalue
          | wrapped wrapper point expression =>
              cases wrapper with
              | computed => exact .computed span place point hleads hvalue hkey
              | _ => cases hkey
          | _ => cases hkey

theorem not_mentions_unary (symbol : String) (argument : Node) :
    ¬(t.evaluate (.unary span symbol argument)).Mentions path := by
  rw [evaluate_unary]
  cases UnaryOperator.ofSymbol? symbol with
  | none => nofun
  | some op =>
      apply Evaluation.not_mentions_ofOption
      intro v hv
      obtain ⟨a, -, hv⟩ := Option.bind_eq_some_iff.1 hv
      exact isContainer_of_unary hv

/-- A binary operator gives one of its operands, or no reference. -/
theorem mentions_of_binary {symbol : String} {left right : Node}
    (h : (t.evaluate (.binary span symbol left right)).Mentions path) :
    (t.evaluate left).Mentions path ∨ (t.evaluate right).Mentions path := by
  cases hop : BinaryOperator.ofSymbol? symbol with
  | none =>
      rw [evaluate_binary, hop] at h
      cases h
  | some op =>
      by_cases hlogical : ∃ l, op = .logical l
      · obtain ⟨l, rfl⟩ := hlogical
        rw [t.evaluate_binary_of_logical hop] at h
        split at h
        · cases h
        · split at h
          · exact .inl h
          · exact .inr h
      · have hboth : ∀ l, op ≠ .logical l := fun l hl => hlogical ⟨l, hl⟩
        rw [evaluate_binary_of_strict t hop hboth] at h
        refine absurd h (Evaluation.not_mentions_ofOption ?_)
        intro v hv
        obtain ⟨a, -, hv⟩ := Option.bind_eq_some_iff.1 hv
        obtain ⟨b, -, hv⟩ := Option.bind_eq_some_iff.1 hv
        exact isContainer_of_binary hv

/-- The references in the value of a node are those of its parts, but for names
and for accesses to references. -/
theorem leadsTo_of_children (hgrounded : t.Grounded)
    (heval : ∀ c ∈ n.children, ∀ path, (t.evaluate c.2).Mentions path → t.LeadsTo c.2 path)
    (hproperties : ∀ c ∈ n.children, ∀ path d,
      MentionedIn path (t.evaluateProperties d [c.2]) →
        MentionedIn path d ∨ t.LeadsTo c.2 path)
    (h : (t.evaluate n).Mentions path) : t.LeadsTo n path := by
  by_cases hmember : ∃ span object property, n = .member span object property
  · obtain ⟨span, object, property, rfl⟩ := hmember
    exact leadsTo_member (heval (.whole .object, object) List.mem_cons_self) h
  have hinto {c : ChildRef × Node} (hc : c ∈ n.children) (h : t.LeadsTo c.2 path) :
      t.LeadsTo n path :=
    h.within hc fun span object property _ _ heq => absurd ⟨span, object, property, heq⟩ hmember
  have hwithin {c : ChildRef × Node} (hc : c ∈ n.children) (h : (t.evaluate c.2).Mentions path) :
      t.LeadsTo n path := hinto hc (heval c hc path h)
  cases n with
  | string => exact absurd h (Evaluation.not_mentions_known rfl)
  | number => exact absurd h (Evaluation.not_mentions_known rfl)
  | boolean => exact absurd h (Evaluation.not_mentions_known rfl)
  | null => exact absurd h (Evaluation.not_mentions_known rfl)
  | regex => exact absurd h (Evaluation.not_mentions_known rfl)
  | bigint span raw =>
      refine absurd h (Evaluation.not_mentions_ofOption ?_)
      intro v hv
      obtain ⟨value, -, rfl⟩ := Option.map_eq_some_iff.1 hv
      rfl
  | identifier span name declared =>
      obtain ⟨rfl, hunbound⟩ := hgrounded.leads_of_name h
      exact ⟨path, [], .name span declared hunbound, rfl⟩
  | array span elements =>
      cases h with
      | known _ h =>
          cases h with
          | item hmem h =>
              obtain ⟨argument, hargument, h⟩ := exists_of_mem_evaluateElements hmem h
              obtain ⟨ref, hc⟩ := Node.exists_mem_elementChildren hargument
              exact hwithin hc h
  | object span properties =>
      cases h with
      | known _ h =>
          cases h with
          | entry hmem h =>
              have hone (m : Node) (hm : m ∈ properties) (d : Dictionary Evaluation)
                  (h : MentionedIn path (t.evaluateProperties d [m])) :
                  MentionedIn path d ∨ t.LeadsTo m path := by
                obtain ⟨ref, hc⟩ := Node.exists_mem_listChildren hm
                exact hproperties (ref, m) hc path d h
              rcases exists_of_mentionedIn_evaluateProperties hone ⟨_, hmem, h⟩ with
                ⟨_, hmem, _⟩ | ⟨m, hm, h⟩
              · cases hmem
              · obtain ⟨ref, hc⟩ := Node.exists_mem_listChildren hm
                exact hinto (c := (ref, m)) hc h
  | template span quasis expressions types =>
      rw [evaluate_template] at h
      refine absurd h (Evaluation.not_mentions_ofOption ?_)
      intro v hv
      obtain ⟨text, -, rfl⟩ := Option.map_eq_some_iff.1 hv
      rfl
  | binary span symbol left right =>
      rcases mentions_of_binary h with h | h
      · exact hwithin (c := (.whole .left, left)) (by simp [Node.children, Node.oneChild]) h
      · exact hwithin (c := (.whole .right, right)) (by simp [Node.children, Node.oneChild]) h
  | unary span symbol argument => exact absurd h (not_mentions_unary symbol argument)
  | conditional span test consequent alternate =>
      rw [evaluate_conditional] at h
      split at h
      · cases h
      · split at h
        · exact hwithin (c := (.whole .consequent, consequent))
            (by simp [Node.children, Node.oneChild]) h
        · obtain ⟨m, rfl, h⟩ := exists_of_mentions_evaluateOptional h
          exact hwithin (c := (.whole .alternate, m))
            (by simp [Node.children, Node.oneChild, Node.optionalChild]) h
  | member span object property => exact absurd ⟨span, object, property, rfl⟩ hmember
  | call span callee arguments types =>
      rw [evaluate_call] at h
      split at h
      · cases h with
        | known _ h =>
            cases h with
            | item hmem h =>
                rw [List.mem_reverse, evaluateArguments_eq] at hmem
                obtain ⟨argument, hargument, h⟩ := exists_of_mem_evaluateElements hmem h
                obtain ⟨ref, hc⟩ := Node.exists_mem_argumentChildren (by simpa using hargument)
                exact hwithin (c := (ref, argument.expression))
                  (List.mem_append_left _ (List.mem_append_right _ hc)) h
      · cases h
  | wrapped wrapper span expression =>
      exact hwithin (c := (.whole .expression, expression)) List.mem_cons_self h
  | cast kind span expression declared types =>
      refine hwithin (c := (.whole .expression, expression)) ?_ h
      cases kind <;> exact List.mem_cons_self
  | sequence span expressions =>
      obtain ⟨m, hm, h⟩ := exists_of_mentions_evaluateLast h
      obtain ⟨ref, hc⟩ := Node.exists_mem_listChildren hm
      exact hwithin hc h
  | assignment span left right =>
      exact hwithin (c := (.whole .right, right)) (by simp [Node.children, Node.oneChild]) h
  | await span argument =>
      obtain ⟨m, rfl, h⟩ := exists_of_mentions_evaluateOptional h
      exact hwithin (c := (.whole .argument, m)) List.mem_cons_self h
  | _ => cases h

/-- The references in the entries that a node adds to an object are those of its
parts, or of the name that it is. -/
theorem mentionedIn_of_children (hgrounded : t.Grounded)
    (heval : ∀ c ∈ n.children, ∀ path, (t.evaluate c.2).Mentions path → t.LeadsTo c.2 path)
    {d : Dictionary Evaluation} (h : MentionedIn path (t.evaluateProperties d [n])) :
    MentionedIn path d ∨ t.LeadsTo n path := by
  have hput {name : String} {e : Evaluation} (he : e.Mentions path → t.LeadsTo n path)
      (h : MentionedIn path (Dictionary.put name e d)) :
      MentionedIn path d ∨ t.LeadsTo n path := by
    obtain ⟨entry, hmem, h⟩ := h
    rcases Dictionary.eq_or_mem_of_mem_put hmem with rfl | hmem
    · exact .inr (he h)
    · exact .inl ⟨entry, hmem, h⟩
  cases n with
  | identifier span name declared =>
      apply hput _ h
      intro h
      obtain ⟨rfl, hunbound⟩ := hgrounded.leads_of_name h
      exact ⟨path, [], .name span declared hunbound, rfl⟩
  | spread span source =>
      obtain ⟨entry, hmem, h⟩ := h
      rcases Dictionary.mem_or_mem_of_mem_putAll hmem with hmem | hmem
      · have hc : (.whole .arguments, source) ∈ (Node.spread span source).children :=
          List.mem_cons_self
        have h := heval _ hc path (mentions_of_mem_spreadEntries hmem h)
        exact .inr (h.within hc nofun)
      · exact .inl ⟨entry, hmem, h⟩
  | pair kind key value =>
      by_cases hpattern : kind = .pattern
      · subst hpattern
        exact .inl h
      · rw [evaluateProperties_pair t d hpattern] at h
        split at h
        · apply hput _ h
          intro h
          have hc := Node.value_mem_children kind key value
          exact (heval _ hc path h).within hc nofun
        · exact .inl h
  | _ => exact .inl h

/-- Every reference in the value of an expression leads back to one of its names. -/
theorem leadsTo_of_mentions (hgrounded : t.Grounded) (h : (t.evaluate n).Mentions path) :
    t.LeadsTo n path := by
  -- the references that a node brings into an object are those of its parts, not of its value
  suffices hboth : ∀ n : Node,
      (∀ path, (t.evaluate n).Mentions path → t.LeadsTo n path) ∧
        ∀ path d, MentionedIn path (t.evaluateProperties d [n]) →
          MentionedIn path d ∨ t.LeadsTo n path from (hboth n).1 path h
  intro n
  induction n using Node.induction with
  | step n ih =>
      have heval := fun c hc => (ih c hc).1
      have hproperties := fun c hc => (ih c hc).2
      exact ⟨fun _ => leadsTo_of_children hgrounded heval hproperties,
        fun _ _ => mentionedIn_of_children hgrounded heval⟩

/-- An expression that is a reference leads back to one of its names, of which
nothing is known. Its path is that name, with the key of each access that was
applied to the reference behind it, in order. -/
theorem exists_of_evaluate_eq_reference (hgrounded : t.Grounded)
    (h : t.evaluate n = .reference path span) :
    ∃ x keys, x ∈ n.names ∧ x ≠ "undefined" ∧
      (∀ frame ∈ t.frames, Dictionary.get? x frame = none) ∧
      t.Leads x n keys ∧ path = dotted x keys := by
  have hmentions : (t.evaluate n).Mentions path := h ▸ .reference span
  obtain ⟨x, keys, hleads, hpath⟩ := leadsTo_of_mentions hgrounded hmentions
  exact ⟨x, keys, hleads.mem_names, hleads.unbound.ne_undefined, hleads.unbound.get?_eq_none,
    hleads, hpath⟩

/-- `({a: [tokens]}).a[0][key]` -/
def readThrough : Node :=
  let object : Node := .object ⟨2, 15⟩
    [.pair .property (.identifier ⟨3, 4⟩ "a" none)
      (.array ⟨6, 14⟩ [some ⟨none, .identifier ⟨7, 13⟩ "tokens" none⟩])]
  let list : Node := .member ⟨1, 18⟩ (.wrapped .parenthesis ⟨1, 16⟩ object)
    (.identifier ⟨17, 18⟩ "a" none)
  let first : Node := .member ⟨1, 21⟩ list (.wrapped .computed ⟨18, 21⟩ (.string ⟨19, 20⟩ "0"))
  .member ⟨1, 26⟩ first (.wrapped .computed ⟨21, 26⟩ (.identifier ⟨22, 25⟩ "key" none))

/-- A file that binds `key`. -/
def keyed : Tracker :=
  { new with frames := [[("key", .string "primary")]] }

theorem grounded_keyed : keyed.Grounded := by
  intro frame hframe entry hentry path
  rw [List.mem_singleton.1 hframe] at hentry
  rw [List.mem_singleton.1 hentry]
  exact Value.not_mentions_of_isContainer rfl

/-- The accesses that take the reference out of the object and the array add no
key, the one that is applied to it does. -/
theorem exists_of_evaluate_eq_reference_readThrough :
    keyed.Grounded ∧ keyed.evaluate readThrough = .reference "tokens.primary" ⟨1, 26⟩ ∧
      ∃ x keys, x ∈ readThrough.names ∧ x ≠ "undefined" ∧
        (∀ frame ∈ keyed.frames, Dictionary.get? x frame = none) ∧
        keyed.Leads x readThrough keys ∧ "tokens.primary" = dotted x keys := by
  have heval : keyed.evaluate readThrough = .reference "tokens.primary" ⟨1, 26⟩ := rfl
  exact ⟨grounded_keyed, heval, exists_of_evaluate_eq_reference grounded_keyed heval⟩

end Tracker

end StyleSense
