/-
# What a walk reaches

A decoded tree is built of records, and every record that is read fills all slots
of its form. So a walk that leaves nothing out comes to all nodes of the tree, each
once, but for those that some kind holds in a field without a rule, and what is
below these.

There are such fields: the decorators of classes, of their properties and of the
methods of objects, the name in the function record of a method of a class, and
one of the two types beside a cast.
-/

import StyleSense.Tree.Reader
import StyleSense.Proofs.Tree.Held

namespace StyleSense

namespace Tree

/-- The nodes that were read from a field. -/
def Held.content : Held → List Node
  | .node n => [n]
  | .nodes items => items.reduceOption
  | .arguments items => items.reduceOption.map Argument.expression
  | _ => []

namespace Record

variable {r : Record}

/-- The nodes that were read from all fields. -/
def content (r : Record) : List Node :=
  r.flatMap fun entry => entry.2.content

/-- A node that was read, or the one in place of what is missing. -/
def Gives (r : Record) (m : Node) : Prop :=
  m = Node.invalid ∨ m ∈ r.content

theorem gives_held (name : String) {m : Node} (h : m ∈ (r.held name).content) : r.Gives m := by
  rw [held] at h
  split at h
  next heq => exact .inr (List.mem_flatMap.2 ⟨_, List.mem_of_find?_eq_some heq, h⟩)
  next => cases h

theorem gives_node? (name : String) : ∀ m ∈ (r.node? name).toList, r.Gives m := by
  intro m hm
  rw [node?] at hm
  split at hm
  next heq => exact gives_held name (by rw [heq]; exact hm)
  next => cases hm

theorem gives_node (name : String) : r.Gives (r.node name) := by
  rw [node]
  cases hnode : r.node? name with
  | none => exact .inl rfl
  | some node => exact gives_node? name node (Option.mem_toList.2 hnode)

theorem gives_holes (name : String) : ∀ m ∈ (r.holes name).reduceOption, r.Gives m := by
  intro m hm
  rw [holes] at hm
  split at hm
  next heq => exact gives_held name (by rw [heq]; exact hm)
  next => cases hm

theorem gives_nodes (name : String) : ∀ m ∈ r.nodes name, r.Gives m :=
  gives_holes name

theorem gives_elements (name : String) :
    ∀ m ∈ (r.elements name).reduceOption.map Argument.expression, r.Gives m := by
  intro m hm
  rw [elements] at hm
  split at hm
  next heq => exact gives_held name (by rw [heq]; exact hm)
  next => cases hm

theorem gives_arguments (name : String) :
    ∀ m ∈ (r.arguments name).map Argument.expression, r.Gives m :=
  gives_elements name

/-- A slot is filled from its field. -/
theorem gives_slot (field : Field × Content) : ∀ m ∈ (r.slot field).nodes, r.Gives m := by
  obtain ⟨field, content⟩ := field
  cases content with
  | child =>
      intro m hm
      cases List.mem_singleton.1 hm
      exact gives_node field.text
  | optional => exact gives_node? field.text
  | optionalArguments =>
      intro m hm
      refine gives_arguments field.text m ?_
      rwa [slot, Slot.nodes, Node.reduceOption_map_some] at hm
  | _ => exact gives_holes field.text

end Record

namespace Blueprint

/-- Kinds whose nodes have all slots and hold nothing but what was read. -/
def Faithful (b : Blueprint) : Prop :=
  ∀ r : Record, (b.build r).Fits ∧ ∀ m ∈ (b.build r).held, r.Gives m

theorem faithful_ofForm (form : Form) : (ofForm form).Faithful := by
  intro r
  refine ⟨⟨List.length_map _, List.length_map _⟩, fun m hm => ?_⟩
  obtain ⟨slot, hslot, hm⟩ := Node.mem_slots_of_mem_held hm
  rw [← List.map_append] at hslot
  obtain ⟨field, -, rfl⟩ := List.mem_map.1 hslot
  exact Record.gives_slot field m hm

theorem faithful_all : ∀ b ∈ all, b.Faithful := by
  unfold all
  simp only [List.forall_mem_cons, faithful_ofForm, true_and, List.not_mem_nil,
    IsEmpty.forall_iff, implies_true, and_true]
  repeat' apply And.intro
  -- what is left are the kinds with constructors of their own
  all_goals
    intro r
    refine ⟨trivial, ?_⟩
    simp only [program, spanned, localSpecifier, infixed, wrapped, cast, pair, Node.held,
      List.forall_mem_cons, List.forall_mem_append, List.not_mem_nil, IsEmpty.forall_iff,
      implies_true, and_true]
  all_goals repeat' apply And.intro
  all_goals
    first
    | exact Record.gives_node _
    | exact Record.gives_node? _
    | exact Record.gives_nodes _
    | exact Record.gives_elements _

theorem faithful_of_ofTag? {nested : Bool} {tag : Json} {b : Blueprint}
    (h : ofTag? nested tag = some b) : b.Faithful := by
  rw [ofTag?.eq_def] at h
  split at h
  · exact faithful_all b (List.mem_of_find?_eq_some h)
  · split at h
    · exact faithful_all b (List.mem_of_getElem? h)
    · cases h
  · cases h

theorem faithful_of_ofFields? {nested : Bool} {fields : List (String × Json)} {b : Blueprint}
    (h : ofFields? nested fields = some b) : b.Faithful := by
  rw [ofFields?] at h
  split at h
  · exact faithful_of_ofTag? h
  · cases h

end Blueprint

end Tree

/-- Trees all of whose nodes are as a record can be. -/
def Node.Sound (root : Node) : Prop :=
  ∀ n ∈ root.everything, n.Fits

theorem Node.sound_of_held {n : Node} (h : n.Fits) (hheld : ∀ m ∈ n.held, m.Sound) : n.Sound := by
  intro m hm
  rw [everything_eq] at hm
  rcases List.mem_cons.1 hm with rfl | hm
  · exact h
  · obtain ⟨child, hchild, hm⟩ := List.mem_flatMap.1 hm
    exact hheld child hchild m hm

theorem Node.sound_invalid : Node.invalid.Sound :=
  Node.sound_of_held ⟨rfl, rfl⟩ fun _ hm => absurd hm List.not_mem_nil

namespace Tree

/-- What is built of a record of sound nodes is sound. -/
theorem Blueprint.Faithful.sound {b : Blueprint} (h : b.Faithful) {r : Record}
    (hr : ∀ m ∈ r.content, m.Sound) : (b.build r).Sound := by
  obtain ⟨hfits, hgives⟩ := h r
  refine Node.sound_of_held hfits fun m hm => ?_
  rcases hgives m hm with rfl | hm
  · exact Node.sound_invalid
  · exact hr m hm

theorem Record.sound_argument {r : Record} (hr : ∀ m ∈ r.content, m.Sound) :
    r.argument.expression.Sound := by
  change (r.node "expression").Sound
  rcases r.gives_node "expression" with hinvalid | hmem
  · rw [hinvalid]
    exact Node.sound_invalid
  · exact hr _ hmem

theorem Record.content_append (r s : Record) : (r ++ s).content = r.content ++ s.content :=
  List.flatMap_append

theorem Record.content_singleton (name : String) (entry : Held) :
    Record.content [(name, entry)] = entry.content :=
  List.flatMap_singleton ..

theorem content_of_readScalar? {content : Content} {value : Json} {entry : Held}
    (h : readScalar? content value = some entry) : entry.content = [] := by
  unfold readScalar? at h
  split at h
  all_goals
    first
    | obtain ⟨_, -, rfl⟩ := Option.map_eq_some_iff.1 h
      rfl
    | exact Option.some.inj h ▸ rfl
    | cases h

/-- Whatever is read of a value consists of sound nodes. -/
structure Reading.Sound (reading : Reading) : Prop where
  node {n} : reading.node () = some n → n.Sound
  list {holes items} : reading.list holes = some items → ∀ m ∈ items.reduceOption, m.Sound
  arguments {holes items} : reading.arguments holes = some items →
    ∀ m ∈ items.reduceOption.map Argument.expression, m.Sound
  function {r} : reading.function () = some r → ∀ m ∈ r.content, m.Sound

theorem Reading.Sound.field? {reading : Reading} (hreading : reading.Sound) {name : String}
    {value : Json} {content : Content} {r : Record}
    (h : reading.field? name value content = some r) : ∀ m ∈ r.content, m.Sound := by
  have hnone : ∀ m ∈ Record.content [], m.Sound := fun m hm => absurd hm List.not_mem_nil
  have hnode : ∀ {r}, (reading.node ()).map (fun node => [(name, .node node)]) = some r →
      ∀ m ∈ Record.content r, m.Sound := by
    intro r hr
    obtain ⟨n, hn, rfl⟩ := Option.map_eq_some_iff.1 hr
    rw [Record.content_singleton]
    exact List.forall_mem_singleton.2 (hreading.node hn)
  have hlist : ∀ {holes r},
      (reading.list holes).map (fun items => [(name, .nodes items)]) = some r →
      ∀ m ∈ Record.content r, m.Sound := by
    intro holes r hr
    obtain ⟨items, hitems, rfl⟩ := Option.map_eq_some_iff.1 hr
    rw [Record.content_singleton]
    exact hreading.list hitems
  have harguments : ∀ {holes r},
      (reading.arguments holes).map (fun items => [(name, .arguments items)]) = some r →
      ∀ m ∈ Record.content r, m.Sound := by
    intro holes r hr
    obtain ⟨items, hitems, rfl⟩ := Option.map_eq_some_iff.1 hr
    rw [Record.content_singleton]
    exact hreading.arguments hitems
  unfold Reading.field? at h
  split at h
  · exact hnode h
  · split at h
    · exact Option.some.inj h ▸ hnone
    · exact hnode h
  · exact hlist h
  · exact hlist h
  · exact harguments h
  · split at h
    · exact Option.some.inj h ▸ hnone
    · exact harguments h
  · exact harguments h
  · obtain ⟨inner, hinner, rfl⟩ := Option.map_eq_some_iff.1 h
    intro m hm
    obtain ⟨entry, hentry, hm⟩ := List.mem_flatMap.1 hm
    exact hreading.function hinner m
      (List.mem_flatMap.2 ⟨entry, List.mem_of_mem_filter hentry, hm⟩)
  · obtain ⟨entry, hentry, rfl⟩ := Option.map_eq_some_iff.1 h
    rw [Record.content_singleton, content_of_readScalar? hentry]
    exact hnone

/-- One more field of sound nodes. -/
theorem Reading.Sound.extend {reading : Reading} (hreading : reading.Sound) {name : String}
    {value : Json} {content : Content} {r s : Record} (hr : ∀ m ∈ r.content, m.Sound)
    (h : (reading.field? name value content).map (· ++ r) = some s) :
    ∀ m ∈ s.content, m.Sound := by
  obtain ⟨entries, hentries, rfl⟩ := Option.map_eq_some_iff.1 h
  rw [Record.content_append]
  exact List.forall_mem_append.2 ⟨hreading.field? hentries, hr⟩

mutual

/-- A node that was read is sound. -/
theorem sound_of_readNode? {nested : Bool} {value : Json} {n : Node}
    (h : readNode? nested value = some n) : n.Sound := by
  cases value with
  | object fields =>
      rw [readNode?] at h
      split at h
      · cases h
      next b hb =>
        split at h
        · cases h
        · obtain ⟨r, hr, rfl⟩ := Option.map_eq_some_iff.1 h
          exact (Blueprint.faithful_of_ofFields? hb).sound (sound_of_readFields? hr)
  | array items =>
      cases items with
      | nil => cases h
      | cons tag items =>
          rw [readNode?] at h
          split at h
          · cases h
          next b hb =>
            obtain ⟨r, hr, rfl⟩ := Option.map_eq_some_iff.1 h
            exact (Blueprint.faithful_of_ofTag? hb).sound (sound_of_readPositions? hr)
  | _ => cases h

/-- The nodes of a record without a kind are sound. -/
theorem sound_of_readRecord? {known : List (String × Content)} {value : Json} {r : Record}
    (h : readRecord? known value = some r) : ∀ m ∈ r.content, m.Sound := by
  cases value with
  | object fields =>
      rw [readRecord?] at h
      split at h
      · cases h
      · exact sound_of_readFields? h
  | array items =>
      rw [readRecord?] at h
      exact sound_of_readPositions? h
  | _ => cases h

/-- The nodes among fields that were read are sound. -/
theorem sound_of_readFields? {known : List (String × Content)} {fields : List (String × Json)}
    {r : Record} (h : readFields? known fields = some r) : ∀ m ∈ r.content, m.Sound := by
  cases fields with
  | nil =>
      cases h
      exact fun m hm => absurd hm List.not_mem_nil
  | cons field rest =>
      obtain ⟨name, value⟩ := field
      rw [readFields?] at h
      split at h
      · cases h
      next hrest =>
        cases h
        exact sound_of_readFields? hrest
      next hrest =>
        exact Reading.Sound.extend ⟨sound_of_readNode?, sound_of_readList?,
          sound_of_readArguments?, sound_of_readRecord?⟩ (sound_of_readFields? hrest) h

theorem sound_of_readPositions? {known : List (String × Content)} {items : List Json}
    {r : Record} (h : readPositions? known items = some r) : ∀ m ∈ r.content, m.Sound := by
  cases items with
  | nil =>
      cases known <;> cases h <;> exact fun m hm => absurd hm List.not_mem_nil
  | cons value rest =>
      cases known with
      | nil => cases h
      | cons field known =>
          obtain ⟨name, content⟩ := field
          rw [readPositions?] at h
          split at h
          · cases h
          next hrest =>
            exact Reading.Sound.extend ⟨sound_of_readNode?, sound_of_readList?,
              sound_of_readArguments?, sound_of_readRecord?⟩ (sound_of_readPositions? hrest) h

/-- The nodes in a list are sound. -/
theorem sound_of_readList? {holes : Bool} {value : Json} {items : List (Option Node)}
    (h : readList? holes value = some items) : ∀ m ∈ items.reduceOption, m.Sound := by
  cases value with
  | array values =>
      rw [readList?] at h
      exact sound_of_readItems? h
  | _ => cases h

theorem sound_of_readItems? {holes : Bool} {values : List Json} {items : List (Option Node)}
    (h : readItems? holes values = some items) : ∀ m ∈ items.reduceOption, m.Sound := by
  cases values with
  | nil =>
      cases h
      exact fun m hm => absurd hm List.not_mem_nil
  | cons value rest =>
      unfold readItems? at h
      split at h
      · split at h
        · obtain ⟨others, hothers, rfl⟩ := Option.map_eq_some_iff.1 h
          rw [List.reduceOption_cons_of_none]
          exact sound_of_readItems? hothers
        · cases h
      · split at h
        next hvalue hrest =>
          cases h
          rw [List.reduceOption_cons_of_some]
          exact List.forall_mem_cons.2 ⟨sound_of_readNode? hvalue, sound_of_readItems? hrest⟩
        next => cases h

/-- The expressions of arguments are sound. -/
theorem sound_of_readArguments? {holes : Bool} {value : Json}
    {items : List (Option (Argument Node))} (h : readArguments? holes value = some items) :
    ∀ m ∈ items.reduceOption.map Argument.expression, m.Sound := by
  cases value with
  | array values =>
      rw [readArguments?] at h
      exact sound_of_readArgumentItems? h
  | _ => cases h

theorem sound_of_readArgumentItems? {holes : Bool} {values : List Json}
    {items : List (Option (Argument Node))} (h : readArgumentItems? holes values = some items) :
    ∀ m ∈ items.reduceOption.map Argument.expression, m.Sound := by
  cases values with
  | nil =>
      cases h
      exact fun m hm => absurd hm List.not_mem_nil
  | cons value rest =>
      unfold readArgumentItems? at h
      split at h
      · split at h
        · obtain ⟨others, hothers, rfl⟩ := Option.map_eq_some_iff.1 h
          rw [List.reduceOption_cons_of_none]
          exact sound_of_readArgumentItems? hothers
        · cases h
      · split at h
        next hvalue hrest =>
          cases h
          rw [List.reduceOption_cons_of_some, List.map_cons]
          exact List.forall_mem_cons.2
            ⟨Record.sound_argument (sound_of_readRecord? hvalue), sound_of_readArgumentItems? hrest⟩
        next => cases h

end

end Tree

namespace Node

/-- The kinds with a field that no rule names. -/
def kindsWithUnruledField : List String :=
  ["ClassDeclaration", "ClassExpression", "ClassMethod", "PrivateMethod", "ClassProperty",
    "PrivateProperty", "MethodProperty", "TsAsExpression", "TsSatisfiesExpression",
    "TsTypeAssertion", "TsInstantiation"]

theorem unvisited_eq_nil {form : Form} (h : form.kindName ∉ kindsWithUnruledField) :
    form.unvisited = [] := by
  cases form <;> first | rfl | exact absurd (by decide) h

theorem passedOver_eq_nil {n : Node} (hfits : n.Fits) (h : n.kindName ∉ kindsWithUnruledField) :
    n.passedOver = [] := by
  cases n with
  | plain form span slots rest =>
      have hlength := hfits.2
      rw [unvisited_eq_nil h, List.length_nil] at hlength
      rw [passedOver, List.length_eq_zero_iff.1 hlength]
      rfl
  | cast kind span expression declared typeArgs =>
      refine absurd ?_ h
      cases kind <;> simp [kindName, kindsWithUnruledField]
  | _ => rfl

theorem perm_append_iff_eq_nil {α : Type} {all some others : List α}
    (h : all.Perm (some ++ others)) : all.Perm some ↔ others = [] := by
  constructor
  · intro hsome
    have hlength := h.length_eq
    rw [hsome.length_eq, List.length_append] at hlength
    exact List.length_eq_zero_iff.1 (by omega)
  · rintro rfl
    rwa [List.append_nil] at h

theorem lost_eq_nil_iff {root : Node} (h : root.Sound) :
    root.lost = [] ↔ ∀ n ∈ root.everything, n.passedOver = [] := by
  have hall := everything_perm h
  constructor
  · intro hlost n hn
    rw [hlost, List.append_nil] at hall
    have hnone := List.flatMap_eq_nil_iff.1 hlost n (hall.mem_iff.1 hn)
    cases hover : n.passedOver with
    | nil => rfl
    | cons m ms =>
        rw [hover, List.flatMap_cons] at hnone
        have hself := mem_everything_self m
        rw [(List.append_eq_nil_iff.1 hnone).1] at hself
        exact absurd hself List.not_mem_nil
  · intro hover
    refine List.flatMap_eq_nil_iff.2 fun n hn => ?_
    rw [hover n (hall.mem_iff.2 (List.mem_append_left _ hn))]
    rfl

end Node

namespace Visitor

variable {σ α : Type}

theorem entered_of_proceeds {v : Visitor σ α} (hv : v.Proceeds) (root : Node) (state : α)
    (memory : σ) :
    (v.walk root state memory).1 = .completed ∧
      Node.nodesOf .enter (marks (v.calls root state memory)) = root.preorder := by
  obtain ⟨next, entries, hvisit, hentries⟩ := visit_brackets hv root none state memory []
  have hmarks : marks (v.calls root state memory) = root.brackets := by
    rw [calls, walk, hvisit]
    exact hentries
  rw [hmarks, ← walk_logged, walk, hvisit]
  exact ⟨rfl, Node.nodesOf_enter_brackets root⟩

/-- The main statement. What a node holds is its children and what its rule passes
over, each once, and all but a few kinds pass nothing over. A walk that leaves
nothing out enters each node of a decoded tree once, but for those lost through
what is passed over; so it reaches all of them exactly if nothing is. -/
theorem walk_reaches {v : Visitor σ α} (hv : v.Proceeds) :
    (∀ n : Node, n.Fits →
      n.held.Perm (n.children.map Prod.snd ++ n.passedOver) ∧
      (n.held.Perm (n.children.map Prod.snd) ↔ n.passedOver = []) ∧
      (n.kindName ∉ Node.kindsWithUnruledField → n.passedOver = [])) ∧
    ∀ json root, Node.ofJson? json = some root → ∀ state memory,
      (v.walk root state memory).1 = .completed ∧
      (∀ n ∈ root.everything, n.Fits) ∧
      root.everything.Perm
        (Node.nodesOf .enter (marks (v.calls root state memory)) ++ root.lost) ∧
      (root.everything.Perm (Node.nodesOf .enter (marks (v.calls root state memory))) ↔
        ∀ n ∈ root.everything, n.passedOver = []) := by
  refine ⟨fun n hn => ⟨Node.held_perm hn, Node.perm_append_iff_eq_nil (Node.held_perm hn),
    Node.passedOver_eq_nil hn⟩, fun json root hroot state memory => ?_⟩
  have hsound : root.Sound := Tree.sound_of_readNode? hroot
  obtain ⟨hcompleted, hentered⟩ := entered_of_proceeds hv root state memory
  have hall := Node.everything_perm hsound
  rw [hentered]
  exact ⟨hcompleted, hsound, hall,
    (Node.perm_append_iff_eq_nil hall).trans (Node.lost_eq_nil_iff hsound)⟩

/-- A class with a method, whose key, parameter and decorator are all reached. -/
theorem walk_reaches_method :
    let identifier (name : String) : Json := .object [("type", .string "Identifier"),
      ("value", .string name)]
    let json : Json := .object [("type", .string "ClassDeclaration"), ("body", .array [
      .object [("type", .string "ClassMethod"), ("key", identifier "k"), ("function",
        .object [("params", .array [identifier "p"]), ("decorators", .array [identifier "d"])])]])]
    let name (text : String) : Node := .identifier Span.none text none
    let method : Node := .plain .classMethod Span.none [.one none, .many [some (name "p")],
      .one none, .one none, .many [some (name "d")], .one (some (name "k"))] [.one none]
    let root : Node := .plain .classDeclaration Span.none [.many [some method], .one none,
      .one none, .one none, .one none, .many []] [.many []]
    depthGauge.Proceeds ∧ Node.ofJson? json = some root ∧
      root.everything = [root, method, name "k", name "p", name "d"] ∧
      root.everything.Perm (Node.nodesOf .enter (marks (depthGauge.calls root 0 0))) := by
  intro identifier json name method root
  have hroot : Node.ofJson? json = some root := rfl
  have hname : ∀ text, (name text).everything = [name text] := by
    intro text
    rw [Node.everything_eq]
    rfl
  have hall : root.everything = [root, method, name "k", name "p", name "d"] := by
    have hheld : root.held = [method] := rfl
    have hmethod : method.held = [name "k", name "p", name "d"] := rfl
    rw [Node.everything_eq, hheld, List.flatMap_singleton, Node.everything_eq, hmethod]
    simp only [List.flatMap_cons, List.flatMap_nil, hname, List.cons_append, List.nil_append]
  refine ⟨depthGauge_proceeds, hroot, hall, ?_⟩
  obtain ⟨-, -, -, hreached⟩ := (walk_reaches depthGauge_proceeds).2 json root hroot 0 0
  refine hreached.2 fun n hn => ?_
  rw [hall] at hn
  simp only [List.mem_cons, List.not_mem_nil, or_false] at hn
  rcases hn with rfl | rfl | rfl | rfl | rfl <;> rfl

/-- The decorator of a class is held by it, and a walk that leaves nothing out does
not come to it. -/
theorem walk_misses_decorator :
    let json : Json := .object [("type", .string "ClassExpression"), ("decorators", .array [
      .object [("type", .string "Decorator"),
        ("expression", .object [("type", .string "Identifier"), ("value", .string "d")])]])]
    let decorator : Node :=
      .plain .decorator Span.none [.one (some (.identifier Span.none "d" none))] []
    let root : Node := .plain .classExpression Span.none [.many [], .one none, .one none,
      .one none, .one none, .many []] [.many [some decorator]]
    depthGauge.Proceeds ∧ Node.ofJson? json = some root ∧ root.held = [decorator] ∧
      root.children = [] ∧
      Node.nodesOf .enter (marks (depthGauge.calls root 0 0)) = [root] := by
  intro json decorator root
  have hchildren : root.children = [] := rfl
  refine ⟨depthGauge_proceeds, rfl, rfl, hchildren, ?_⟩
  rw [(entered_of_proceeds depthGauge_proceeds root 0 0).2, Node.preorder_eq, hchildren]
  rfl

end Visitor

end StyleSense
