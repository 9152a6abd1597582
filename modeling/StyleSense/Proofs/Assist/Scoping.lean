/-
# Lexical scoping

A name is folded to the constant that the innermost scope declaring it has
folded, provided that scopes which declare a name again have folded it too.
Without that proviso it fails: only constants that fold are known, so a
variable, a parameter or a constant that does not fold hides nothing, and the
name is folded to a constant of a scope further out.

The frames of the tracker are modules, scripts and blocks, and what they hold is
known from the ledger of the walk. The scopes of a name are also functions, and
whether they declare it is read off the tree. Both are places around the use of
the name.
-/

import StyleSense.Proofs.Assist.Ledger
import StyleSense.Proofs.Tree.Downward

namespace StyleSense

namespace Node

/-- The field of a pattern in which the names are that it binds. -/
def bindingField? : Node → Option Field
  | .pair .pattern .. => some .value
  | .shorthand .. => some .key
  | .defaulted .. => some .left
  | .objectPattern .. => some .properties
  | .plain .arrayPattern .. => some .elements
  | .plain .restElement .. => some .argument
  | .plain .parameter .. => some .pat
  | .plain .tsParameterProperty .. => some .param
  | _ => none

/-- Whether a pattern binds a name. -/
def binds (x : String) (n : Node) : Bool :=
  n.identifierName? = some x ||
    n.children.attach.any fun c => bindingField? n = some c.1.1.field && binds x c.1.2
termination_by sizeOf n
decreasing_by exact Node.sizeOf_lt_of_mem_children c.2

/-- The field of a function that holds its parameters. -/
def paramField? : Node → Option Field
  | .plain .functionDeclaration .. | .plain .functionExpression ..
  | .plain .arrowFunctionExpression .. | .plain .constructor .. | .plain .classMethod ..
  | .plain .privateMethod .. | .plain .methodProperty .. => some .params
  | .plain .setterProperty .. => some .param
  | _ => none

end Node

namespace Assist

open StyleSense.Text StyleSense.Style

/-- Whether a node is a `const` or `let` declaration of a name. -/
def declaresVariable (x : String) : Node → Bool
  | .declaration _ kind declarations =>
      (kind = "const" || kind = "let") && declarations.any fun
        | .declarator _ target _ => target.binds x
        | _ => false
  | _ => false

/-- The plain name that a declarator declares. -/
def declaredName? : Node → Option String
  | .declarator _ target _ => target.identifierName?
  | _ => none

/-- Nodes that may declare names for what is in them. -/
def isScope (n : Node) : Bool :=
  opensFrame n || n.paramField?.isSome

/-- Whether a scope declares a name: a module, a script or a block by one of its
statements, which may be an export, and a function by a parameter. -/
def declares (x : String) (n : Node) : Bool :=
  opensFrame n && n.children.any (fun c =>
      declaresVariable x c.2 || isExport c.2 && c.2.children.any (declaresVariable x ·.2)) ||
    n.children.any fun c => n.paramField? = some c.1.field && c.2.binds x

theorem isScope_of_declares {x : String} {n : Node} (h : declares x n = true) :
    isScope n = true := by
  rw [declares, Bool.or_eq_true, Bool.and_eq_true] at h
  rw [isScope, Bool.or_eq_true]
  rcases h with ⟨hopens, -⟩ | hparam
  · exact .inl hopens
  · obtain ⟨c, -, hc⟩ := List.any_eq_true.1 hparam
    rw [Bool.and_eq_true, decide_eq_true_eq] at hc
    exact .inr (by rw [hc.1]; rfl)

/-- Evaluation does not look into scopes. -/
theorem evaluate_of_isScope {n : Node} (h : isScope n = true) (t : Tracker) :
    t.evaluate n = .dynamic := by
  cases n with
  | program => simp [Tracker.evaluate]
  | block => simp [Tracker.evaluate]
  | plain => simp [Tracker.evaluate]
  | _ => cases h

/-- A name is folded to the constant that is known by it. -/
theorem evaluate_identifier_eq_known {t : Tracker} {span source : Span} {x : String}
    {declared : Option Node} {value : Value} :
    t.evaluate (.identifier span x declared) = .known value source ↔
      source = span ∧ (x = "undefined" ∧ value = .undefined ∨
        x ≠ "undefined" ∧ t.lookup? x = some value) := by
  rw [Tracker.evaluate, Tracker.evaluateName]
  split
  · next h => simp [h, eq_comm, and_comm]
  · next h => cases t.lookup? x <;> simp [h, eq_comm, and_comm]

/-- A call folds to a list of fallbacks, if at all. -/
theorem evaluate_call_ne_null (t : Tracker) (span : Span) (callee : Node)
    (arguments : List (Argument Node)) (typeArgs : Option Node) :
    (t.evaluate (.call span callee arguments typeArgs)).value? ≠ some .null := by
  rw [Tracker.evaluate]
  split <;> nofun

theorem constant?_call_ne_null (t : Tracker) (span span' : Span) (target callee : Node)
    (arguments : List (Argument Node)) (typeArgs : Option Node) (x : String) :
    constant? t (.declarator span target (some (.call span' callee arguments typeArgs))) ≠
      some (x, .null) := by
  rw [constant?]
  split
  · next hvalue =>
      intro hnull
      cases hnull
      exact evaluate_call_ne_null t span' callee arguments typeArgs hvalue
  · nofun

variable {α β : Type}

/-- A moment at which names are looked up: the calls before, the one that enters
a node, and the declarators of that node whose constants are bound by now. -/
structure Moment (α β : Type) where
  earlier : List (Visitor.Step (Notes β) α)
  step : Visitor.Step (Notes β) α
  bound : List Node

/-- Where a declaration stands that belongs to the scope at `scope`: it is one of
its statements, or exported by one. -/
def Belongs (tree : Node) (scope path : Path) : Prop :=
  (tree.at? scope).any opensFrame = true ∧
    ((∃ i, path = scope ++ [i]) ∨
      ∃ i j, path = scope ++ [i, j] ∧ (tree.at? (scope ++ [i])).any isExport = true)

namespace Moment

/-- The moment occurs in the walk of a tree. -/
structure Occurs (m : Moment α β) (v : Visitor (Notes β) α) (tree : Node) (place : α)
    (notes : Notes β) : Prop where
  step : ∃ later, v.steps tree none place notes = m.earlier ++ m.step :: later
  enters : m.step.hook = .enter
  bound : m.bound <+: constants m.step.node

/-- The tracker has the constants of the moment. It may have learned names of the
style API since. -/
def Knows (m : Moment α β) (t : Tracker) : Prop :=
  ∃ u, bindConstants m.step.memory.tracker m.bound = .ok u ∧ t.frames = u.frames

/-- A declarator of a constant in the scope, by this moment, has folded to this
value. -/
def Folded (m : Moment α β) (tree : Node) (scope : Path) (x : String) (value : Value) : Prop :=
  (∃ s ∈ m.earlier, s.hook = .enter ∧ Belongs tree scope s.path ∧
      Folds s.memory.tracker (constants s.node) x value) ∨
    Belongs tree scope m.step.path ∧ Folds m.step.memory.tracker m.bound x value

/-- A name that a scope around `use` has folded, and a scope further in declares
again, has been folded by that scope too. -/
def Unhidden (m : Moment α β) (tree : Node) (use : Path) (x : String) : Prop :=
  ∀ outer inner, outer <+: inner → outer ≠ inner →
    Node.Encloses (declares x) tree use inner →
    (∃ value, m.Folded tree outer x value) → ∃ value, m.Folded tree inner x value

end Moment

/-- The place of a name that is evaluated with the node at `path`: it is below
the node, and no scope is in between, for evaluation looks into none
(`evaluate_of_isScope`). -/
def Reaches (tree : Node) (path use : Path) : Prop :=
  path <+: use ∧ ∀ place, path <+: place → place <+: use → (tree.at? place).any isScope = false

/-- What declares a name around its use stands around the node that is evaluated
with it. -/
theorem Reaches.encloses {tree : Node} {path use place : Path} {x : String}
    (h : Reaches tree path use) (hplace : Node.Encloses (declares x) tree use place) :
    Node.Encloses (declares x) tree path place := by
  have hshut : ¬path <+: place := by
    intro hbelow
    have hscope := h.2 place hbelow hplace.above
    have hpicked := hplace.picked
    cases hat : tree.at? place with
    | none => simp [hat] at hpicked
    | some n =>
        rw [hat] at hscope hpicked
        rw [Option.any_some, isScope_of_declares hpicked] at hscope
        cases hscope
  refine ⟨(List.prefix_or_prefix_of_prefix hplace.above h.1).resolve_right hshut, ?_,
    hplace.picked⟩
  rintro rfl
  exact hshut (List.prefix_refl place)

/-- Whether a node declares constants of a name. -/
def declaresConstant (x : String) (n : Node) : Bool :=
  (constants n).any fun d => declaredName? d = some x

/-- Constants of this name that go into a frame around `use` belong to the scope
of that frame. The head of a loop and the cases of a switch have no frame. -/
def Settled (tree : Node) (use : Path) (x : String) : Prop :=
  ∀ path scope, (tree.at? path).any (declaresConstant x) = true →
    Node.Innermost opensFrame tree path scope → Node.Encloses opensFrame tree use scope →
    Belongs tree scope path

theorem reaches_of_inits {tree : Node} {path use : Path} (h : path <+: use)
    (hshut : ∀ place ∈ use.inits, path <+: place → (tree.at? place).any isScope = false) :
    Reaches tree path use :=
  ⟨h, fun place hbelow habove => hshut place ((List.mem_inits place use).2 habove) hbelow⟩

section

variable {tree n : Node} {scope path : Path} {x : String} {value : Value} {t : Tracker}

/-- A declaration belongs to the innermost frame around it. -/
theorem Belongs.head?_enclosing (h : Belongs tree scope path) :
    (tree.enclosing opensFrame path).head? = some scope := by
  obtain ⟨hopens, hpath⟩ := h
  rw [← Node.innermost_iff]
  have hshorter : ∀ {place below : Path} {i : Nat}, place <+: below ++ [i] →
      place ≠ below ++ [i] → place <+: below := by
    intro place below i hplace hne
    exact (List.prefix_concat_iff.1 hplace).resolve_left hne
  rcases hpath with ⟨i, rfl⟩ | ⟨i, j, rfl, hexport⟩
  · exact ⟨⟨List.prefix_append _ _, by simp, hopens⟩, fun place h => hshorter h.above h.ne⟩
  · refine ⟨⟨List.prefix_append _ _, by simp, hopens⟩, fun place h => ?_⟩
    have habove : place <+: scope ++ [i] := by
      refine hshorter (i := j) ?_ ?_
      · rw [List.append_assoc]
        exact h.above
      · rw [List.append_assoc]
        exact h.ne
    refine hshorter habove ?_
    -- an export has no frame
    rintro rfl
    have hpicked := h.picked
    cases hat : tree.at? (scope ++ [i]) with
    | none => simp [hat] at hpicked
    | some n =>
        rw [hat] at hpicked hexport
        cases n with
        | program => cases hexport
        | block => cases hexport
        | _ => cases hpicked

/-- Where every such declaration belongs to some scope, they are settled. Only the
places of the tree need to be looked at. -/
theorem settled_of_places {use : Path}
    (h : ∀ path ∈ tree.places.filter (fun path => (tree.at? path).any (declaresConstant x)),
      ∃ scope, Belongs tree scope path) : Settled tree use x := by
  intro path scope hpath hscope _
  have hplace : path ∈ tree.places := by
    cases hn : tree.at? path with
    | none => simp [hn] at hpath
    | some n => exact Node.mem_places hn
  obtain ⟨other, hother⟩ := h path (List.mem_filter.2 ⟨hplace, hpath⟩)
  have hsame := Node.innermost_iff.1 hscope
  rw [hother.head?_enclosing, Option.some.injEq] at hsame
  exact hsame ▸ hother

theorem mem_children_of_at? {i : Nat} {m : Node} (hm : tree.at? scope = some m)
    (hn : tree.at? (scope ++ [i]) = some n) : ∃ c ∈ m.children, c.2 = n := by
  rw [Node.at?_append, hm] at hn
  cases hc : m.children[i]? with
  | none => simp [Node.at?, hc] at hn
  | some c =>
      refine ⟨c, List.mem_of_getElem? hc, ?_⟩
      simpa [Node.at?, hc] using hn

/-- The scope to which a declaration belongs declares its names. -/
theorem Belongs.declares (h : Belongs tree scope path) (hn : tree.at? path = some n)
    (hdeclares : declaresVariable x n = true) : (tree.at? scope).any (declares x) = true := by
  obtain ⟨hopens, hpath⟩ := h
  cases hm : tree.at? scope with
  | none => simp [hm] at hopens
  | some m =>
      rw [hm] at hopens
      have hopens : opensFrame m = true := hopens
      suffices hany : m.children.any (fun c => declaresVariable x c.2 ||
          isExport c.2 && c.2.children.any (declaresVariable x ·.2)) = true by
        show Assist.declares x m = true
        rw [Assist.declares, hopens, Bool.true_and, hany]
        rfl
      rw [List.any_eq_true]
      rcases hpath with ⟨i, rfl⟩ | ⟨i, j, rfl, hexport⟩
      · obtain ⟨c, hc, rfl⟩ := mem_children_of_at? hm hn
        exact ⟨c, hc, by rw [hdeclares]; rfl⟩
      · cases hk : tree.at? (scope ++ [i]) with
        | none => simp [hk] at hexport
        | some k =>
            rw [hk] at hexport
            have hexport : isExport k = true := hexport
            obtain ⟨c, hc, rfl⟩ := mem_children_of_at? hm hk
            rw [show scope ++ [i, j] = (scope ++ [i]) ++ [j] by simp] at hn
            obtain ⟨d, hd, rfl⟩ := mem_children_of_at? hk hn
            refine ⟨c, hc, ?_⟩
            rw [hexport, Bool.true_and, Bool.or_eq_true]
            exact .inr (List.any_eq_true.2 ⟨d, hd, hdeclares⟩)

theorem declaredName?_of_constant? {d : Node} (h : constant? t d = some (x, value)) :
    declaredName? d = some x := by
  unfold constant? at h
  split at h
  · split at h
    · next name folded hname hfolded =>
        cases h
        exact hname
    · cases h
  · cases h

theorem declaredName?_of_folds {declarators : List Node} (h : Folds t declarators x value) :
    ∃ d ∈ declarators, declaredName? d = some x := by
  obtain ⟨before, d, after, u, rfl, -, hd⟩ := h
  exact ⟨d, by simp, declaredName?_of_constant? hd⟩

theorem declaresVariable_of_constants {d : Node} (hd : d ∈ constants n)
    (hname : declaredName? d = some x) : declaresVariable x n = true := by
  unfold constants at hd
  split at hd
  · next span kind declarations =>
      split at hd
      · next hkind =>
          rw [declaresVariable, hkind]
          refine List.any_eq_true.2 ⟨d, hd, ?_⟩
          cases d with
          | declarator span target init =>
              show target.binds x = true
              rw [Node.binds, show target.identifierName? = some x from hname, decide_eq_true rfl]
              rfl
          | _ => cases hname
      · exact absurd hd List.not_mem_nil
  · exact absurd hd List.not_mem_nil

end

namespace Moment

variable {m : Moment α β} {tree : Node} {place : α} {notes : Notes β} {x : String}
  {value : Value} {t : Tracker}

/-- What was folded by the moment, and where. -/
def log (m : Moment α β) : Ledger :=
  m.earlier.map learned ++ [(m.step.path, folded m.step.memory.tracker m.bound)]

section

variable {v : Visitor (Notes β) α}

theorem Occurs.at?_eq (h : m.Occurs v tree place notes) :
    tree.at? m.step.path = some m.step.node ∧
      ∀ s ∈ m.earlier, tree.at? s.path = some s.node := by
  obtain ⟨later, hsteps⟩ := h.step
  have hat : ∀ s ∈ v.steps tree none place notes, tree.at? s.path = some s.node := fun s hs =>
    (v.course_visit tree none place notes).node_eq (List.mem_map_of_mem hs)
  rw [hsteps] at hat
  exact ⟨hat m.step (by simp), fun s hs => hat s (by simp [hs])⟩

/-- What a moment has folded is in the log, at a place in the scope. -/
theorem Folded.mem_log (h : m.Folded tree scope x value) :
    (x, value) ∈ heldBy (tree.enclosing opensFrame) (some scope) m.log := by
  rw [mem_heldBy]
  rcases h with ⟨s, hs, hhook, hbelongs, hfolds⟩ | ⟨hbelongs, hfolds⟩
  · refine ⟨learned s, List.mem_append_left _ (List.mem_map_of_mem hs),
      hbelongs.head?_enclosing, ?_⟩
    rw [learned, if_pos hhook]
    exact mem_folded.2 hfolds
  · exact ⟨_, List.mem_append_right _ (List.mem_singleton_self _), hbelongs.head?_enclosing,
      mem_folded.2 hfolds⟩

theorem Folded.opensFrame (h : m.Folded tree scope x value) :
    (tree.at? scope).any opensFrame = true := by
  rcases h with ⟨s, -, -, hbelongs, -⟩ | ⟨hbelongs, -⟩
  · exact hbelongs.1
  · exact hbelongs.1

/-- What is in the log, the moment has folded in a scope that declares it. -/
theorem Occurs.folded_of_mem_log {use : Path} (h : m.Occurs v tree place notes)
    (hsettled : Settled tree use x) (haround : Node.Encloses opensFrame tree use scope)
    (hmem : (x, value) ∈ heldBy (tree.enclosing opensFrame) (some scope) m.log) :
    m.Folded tree scope x value ∧ (tree.at? scope).any (declares x) = true := by
  obtain ⟨hstep, hearlier⟩ := h.at?_eq
  -- a declaration whose constants are in the log belongs to the scope
  have hbelongs : ∀ {path n d}, tree.at? path = some n → d ∈ constants n →
      declaredName? d = some x → (tree.enclosing opensFrame path).head? = some scope →
      Belongs tree scope path ∧ (tree.at? scope).any (declares x) = true := by
    intro path n d hn hd hname hhome
    have hconstant : (tree.at? path).any (declaresConstant x) = true := by
      rw [hn]
      exact List.any_eq_true.2 ⟨d, hd, decide_eq_true hname⟩
    have hscope := hsettled path scope hconstant (Node.innermost_iff.2 hhome) haround
    exact ⟨hscope, hscope.declares hn (declaresVariable_of_constants hd hname)⟩
  obtain ⟨entry, hentry, hhome, hvalue⟩ := mem_heldBy.1 hmem
  rcases List.mem_append.1 hentry with hentry | hentry
  · obtain ⟨s, hs, rfl⟩ := List.mem_map.1 hentry
    rw [learned] at hvalue
    split at hvalue
    · next hhook =>
        have hfolds := mem_folded.1 hvalue
        obtain ⟨d, hd, hname⟩ := declaredName?_of_folds hfolds
        obtain ⟨hscope, hdeclares⟩ := hbelongs (hearlier s hs) hd hname hhome
        exact ⟨.inl ⟨s, hs, hhook, hscope, hfolds⟩, hdeclares⟩
    · exact absurd hvalue List.not_mem_nil
  · obtain rfl := List.mem_singleton.1 hentry
    have hfolds := mem_folded.1 hvalue
    obtain ⟨d, hd, hname⟩ := declaredName?_of_folds hfolds
    obtain ⟨hscope, hdeclares⟩ := hbelongs hstep (h.bound.subset hd) hname hhome
    exact ⟨.inr ⟨hscope, hfolds⟩, hdeclares⟩

end

section

variable {token : Token} {prunes : Node → Bool}
  {look : Node → Option Node → α → Notes β → Flow α × Notes β} {modules : List String}
  {found : β}

/-- The frames at a moment are those that the log accounts for. -/
theorem Occurs.frames_eq (hlook : Observes look)
    (h : m.Occurs (visitor token prunes look) tree place (.start (.withModules modules) found))
    (ht : m.Knows t) :
    t.frames = (tree.enclosing opensFrame m.step.path).map fun scope =>
      Dictionary.putAll (heldBy (tree.enclosing opensFrame) (some scope) m.log) [] := by
  obtain ⟨later, hsteps⟩ := h.step
  obtain ⟨u, hu, hframes⟩ := ht
  have hentered := (keepsBooks_visitor token prunes hlook tree none place
    (.start (.withModules modules) found)).entered m.earlier m.step later hsteps h.enters
  have hdistinct : (tree.enclosing opensFrame m.step.path).Nodup :=
    (Node.pairwise_enclosing opensFrame tree m.step.path).imp fun h => h.2.symm
  rw [hframes, frames_bindConstants hu, hentered]
  refine (record_held hdistinct _ _).trans ?_
  exact List.append_nil _

/-- A name is known as what the innermost scope that has folded it folded. -/
theorem Occurs.lookup? (hlook : Observes look)
    (h : m.Occurs (visitor token prunes look) tree place (.start (.withModules modules) found))
    (ht : m.Knows t) (hvalue : t.lookup? x = some value) :
    ∃ inner scope outer, tree.enclosing opensFrame m.step.path = inner ++ scope :: outer ∧
      (x, value) ∈ heldBy (tree.enclosing opensFrame) (some scope) m.log ∧
      ∀ other ∈ inner, ∀ w, (x, w) ∉ heldBy (tree.enclosing opensFrame) (some other) m.log := by
  rw [Tracker.lookup?, h.frames_eq hlook ht, List.findSome?_map, List.findSome?_eq_some_iff]
    at hvalue
  obtain ⟨inner, scope, outer, hlist, hfound, hinner⟩ := hvalue
  refine ⟨inner, scope, outer, hlist, ?_, fun other hother w hw => ?_⟩
  · exact (Dictionary.mem_or_get?_of_get?_putAll hfound).resolve_right nofun
  · exact Dictionary.get?_putAll_ne_none (.inl ⟨w, hw⟩) (hinner other hother)

end

end Moment

/-- The moment before a node folds any constants of its own, by the number of the
call that enters it. -/
theorem exists_occurs {v : Visitor (Notes β) α} {tree : Node} {place : α} {notes : Notes β}
    {count : Nat} {s : Visitor.Step (Notes β) α}
    (hs : (v.steps tree none place notes)[count]? = some s) (henters : s.hook = .enter) :
    Moment.Occurs ⟨(v.steps tree none place notes).take count, s, []⟩ v tree place notes where
  step := by
    obtain ⟨hcount, rfl⟩ := List.getElem?_eq_some_iff.1 hs
    exact ⟨_, by rw [← List.drop_eq_getElem_cons hcount, List.take_append_drop]⟩
  enters := henters
  bound := List.nil_prefix

theorem eq_of_strictlyEqual? {left right : Value} (hright : right = .null ∨ ∃ b, right = .bool b)
    (h : strictlyEqual? left right = some true) : left = right := by
  rcases hright with rfl | ⟨b, rfl⟩ <;> cases left <;> simp_all [strictlyEqual?]

/-- The call that enters a node, by its number, and what a name is known as
then. -/
theorem exists_enter {steps : List (Visitor.Step (Notes β) α)} {count : Nat} {path : Path}
    {x : String} {value : Value} (hvalue : value = .null ∨ ∃ b, value = .bool b)
    (h : steps[count]?.any (fun s => s.hook = .enter && s.path = path &&
      (s.memory.tracker.lookup? x).any fun w => strictlyEqual? w value = some true) = true) :
    ∃ s, steps[count]? = some s ∧ s.hook = .enter ∧ s.path = path ∧
      s.memory.tracker.lookup? x = some value := by
  obtain ⟨s, hs, htest⟩ := (Option.any_eq_true _ _).1 h
  simp only [Bool.and_eq_true, decide_eq_true_eq, and_assoc] at htest
  obtain ⟨hhook, hpath, hknown⟩ := htest
  obtain ⟨w, hw, hequal⟩ := (Option.any_eq_true _ _).1 hknown
  rw [decide_eq_true_eq] at hequal
  exact ⟨s, hs, hhook, hpath, eq_of_strictlyEqual? hvalue hequal ▸ hw⟩

/-- The walks of hovers, completions and swatches: which visitor there is, with
what it starts, and what it has found then. -/
inductive Analysis (document : Document) (tree : Node) (token : Token) :
    {α β : Type} → Visitor (Notes β) α → α → β → Prop
  | hover (position : Position) (normalize : Normalization) :
      Analysis document tree token (Hover.searching document tree position normalize token)
        Hover.Place.outside none
  | completion (position : Position) :
      Analysis document tree token (Completing.searching document tree position token)
        Completing.Place.outside []
  | swatches : Analysis document tree token (Coloring.searching document tree token) none []

theorem Analysis.exists_observes {document : Document} {tree : Node} {token : Token}
    {v : Visitor (Notes β) α} {place : α} {found : β}
    (h : Analysis document tree token v place found) :
    ∃ prunes look, v = visitor token prunes look ∧ Observes look := by
  cases h with
  | hover => exact ⟨_, _, rfl, Hover.observes_look _⟩
  | completion => exact ⟨_, _, rfl, Completing.observes_look _⟩
  | swatches => exact ⟨_, _, rfl, Coloring.observes_look _⟩

/-- A name that an analysis evaluates is folded only to what the innermost scope
that declares it has folded. Constants of that name in the frames around it have
to belong to a scope, and a scope that declares again what a scope outside has
folded has to fold it too, by the time of the use. The name `undefined` is a
literal. -/
theorem folded_innermost {document : Document} {tree : Node} {token : Token}
    {v : Visitor (Notes β) α} {place : α} {found : β} {modules : List String} {m : Moment α β}
    {t : Tracker} {use : Path} {span source : Span} {x : String} {declared : Option Node}
    {value : Value} (hv : Analysis document tree token v place found)
    (h : m.Occurs v tree place (.start (.withModules modules) found)) (ht : m.Knows t)
    (huse : tree.at? use = some (.identifier span x declared))
    (hreaches : Reaches tree m.step.path use)
    (hvalue : t.evaluate (.identifier span x declared) = .known value source)
    (hsettled : Settled tree use x) (hunhidden : m.Unhidden tree use x) :
    (x = "undefined" ∧ value = .undefined) ∨
      ∃ scope, Node.Innermost (declares x) tree use scope ∧ m.Folded tree scope x value := by
  obtain ⟨prunes, look, rfl, hlook⟩ := hv.exists_observes
  obtain ⟨-, ⟨hundefined, rfl⟩ | ⟨-, hlookup⟩⟩ := evaluate_identifier_eq_known.1 hvalue
  · exact .inl ⟨hundefined, rfl⟩
  · obtain ⟨inner, scope, outer, hlist, hmem, hinner⟩ := h.lookup? hlook ht hlookup
    have hscope : Node.Encloses opensFrame tree m.step.path scope :=
      Node.mem_enclosing.1 (hlist ▸ by simp)
    have haround : Node.Encloses opensFrame tree use scope := by
      refine ⟨hscope.above.trans hreaches.1, ?_, hscope.picked⟩
      rintro rfl
      exact hscope.ne (hscope.above.eq_of_length_le hreaches.1.length_le)
    obtain ⟨hfolded, hdeclares⟩ := h.folded_of_mem_log hsettled haround hmem
    have hencloses : Node.Encloses (declares x) tree use scope :=
      ⟨haround.above, haround.ne, hdeclares⟩
    refine .inr ⟨scope, ⟨hencloses, fun place hplace => ?_⟩, hfolded⟩
    have habove := hreaches.encloses hplace
    refine (List.prefix_or_prefix_of_prefix habove.above hscope.above).elim id fun hbelow => ?_
    by_cases heq : scope = place
    · exact heq ▸ List.prefix_refl scope
    -- a scope further in has folded the name too, so it would have been found first
    obtain ⟨w, hw⟩ := hunhidden scope place hbelow heq hplace ⟨value, hfolded⟩
    have hopens : Node.Encloses opensFrame tree m.step.path place :=
      ⟨habove.above, habove.ne, hw.opensFrame⟩
    refine (Node.mem_of_enclosing_eq_append inner hlist hopens).resolve_left fun hmem => ?_
    exact hinner place hmem w hw.mem_log

/-- The tree of `const x=null;{const x=....;const y=x}`, given the node at the
dots. -/
def shadowing (init : Node) : Node :=
  let declaration (span : Span) (declarator : Span) (name : Span × String) (init : Node) : Node :=
    .declaration span "const" [.declarator declarator (.identifier name.1 name.2 none) (some init)]
  .program .script ⟨0, 37⟩
    [declaration ⟨0, 13⟩ ⟨6, 12⟩ (⟨6, 7⟩, "x") (.null ⟨8, 12⟩),
      .block ⟨13, 37⟩
        [declaration ⟨14, 27⟩ ⟨20, 26⟩ (⟨20, 21⟩, "x") init,
          declaration ⟨27, 36⟩ ⟨33, 36⟩ (⟨33, 34⟩, "y") (.identifier ⟨35, 36⟩ "x" none)]]

/-- A constant in a block that folds hides the one outside. -/
theorem folded_innermost_shadowing :
    let tree := shadowing (.boolean ⟨22, 26⟩ true)
    let document : Document :=
      .new "a.js" "javascript" 1 "const x=null;\x7bconst x=true;const y=x\x7d"
    let v := Coloring.searching document tree .never
    ∃ m : Moment (Option CallKind) (List Swatch),
      m.Occurs v tree none (.start (.withModules []) []) ∧ Settled tree [1, 1, 0, 0] "x" ∧
        m.Unhidden tree [1, 1, 0, 0] "x" ∧ Reaches tree m.step.path [1, 1, 0, 0] ∧
        m.step.memory.tracker.evaluate (.identifier ⟨35, 36⟩ "x" none) =
          .known (.bool true) ⟨35, 36⟩ ∧
        Node.Innermost (declares "x") tree [1, 1, 0, 0] [1] ∧
        m.Folded tree [1] "x" (.bool true) := by
  intro tree document v
  let notes : Notes (List Swatch) := .start (.withModules []) []
  let steps := v.steps tree none none notes
  obtain ⟨s, hs, henters, hpath, hlookup⟩ : ∃ s, steps[29]? = some s ∧ s.hook = .enter ∧
      s.path = [1, 1] ∧ s.memory.tracker.lookup? "x" = some (.bool true) :=
    exists_enter (.inr ⟨true, rfl⟩) (by decide +kernel)
  have hoccurs := exists_occurs hs henters
  have hfolded : Moment.Folded ⟨steps.take 29, s, []⟩ tree [1] "x" (.bool true) := by
    have hearlier : (steps.take 29).any (fun e => e.hook = .enter && e.path = [1, 0]) = true := by
      decide +kernel
    obtain ⟨e, he, hcall⟩ := List.any_eq_true.1 hearlier
    rw [Bool.and_eq_true, decide_eq_true_eq, decide_eq_true_eq] at hcall
    obtain ⟨hhook, hplace⟩ := hcall
    have hnode := hoccurs.at?_eq.2 e he
    rw [hplace] at hnode
    refine .inl ⟨e, he, hhook, hplace ▸ ⟨rfl, .inl ⟨0, rfl⟩⟩, ?_⟩
    rw [← Option.some.inj hnode]
    exact ⟨[], _, [], e.memory.tracker, rfl, rfl, rfl⟩
  have hencloses : tree.enclosing (declares "x") [1, 1, 0, 0] = [[1], []] := by decide +kernel
  have hunhidden : Moment.Unhidden ⟨steps.take 29, s, []⟩ tree [1, 1, 0, 0] "x" := by
    intro outer inner hpre hne hinner _
    have hmem := Node.mem_enclosing.2 hinner
    rw [hencloses] at hmem
    rcases List.mem_pair.1 hmem with rfl | rfl
    · exact ⟨.bool true, hfolded⟩
    · exact absurd (List.prefix_nil.1 hpre) hne
  have hsettled : Settled tree [1, 1, 0, 0] "x" := by
    refine settled_of_places fun path hpath => ?_
    rw [show tree.places.filter _ = [[0], [1, 0]] by decide +kernel] at hpath
    rcases List.mem_pair.1 hpath with rfl | rfl
    · exact ⟨[], rfl, .inl ⟨0, rfl⟩⟩
    · exact ⟨[1], rfl, .inl ⟨0, rfl⟩⟩
  have hreaches : Reaches tree s.path [1, 1, 0, 0] := by
    rw [hpath]
    exact reaches_of_inits (by decide) (by decide +kernel)
  have hvalue : s.memory.tracker.evaluate (.identifier ⟨35, 36⟩ "x" none) =
      .known (.bool true) ⟨35, 36⟩ :=
    evaluate_identifier_eq_known.2 ⟨rfl, .inr ⟨by decide, hlookup⟩⟩
  have hknows : Moment.Knows ⟨steps.take 29, s, []⟩ s.memory.tracker := ⟨_, rfl, rfl⟩
  have hswatches : Analysis document tree .never v none ([] : List Swatch) := .swatches
  obtain ⟨hundefined, -⟩ | ⟨scope, hscope, hknown⟩ :=
    folded_innermost hswatches hoccurs hknows rfl hreaches hvalue hsettled hunhidden
  · exact absurd hundefined (by decide)
  · have hinnermost := Node.innermost_iff.1 hscope
    rw [hencloses, List.head?_cons, Option.some.injEq] at hinnermost
    subst hinnermost
    exact ⟨_, hoccurs, hsettled, hunhidden, hreaches, hvalue, hscope, hknown⟩

/-- A constant in a block that does not fold hides nothing: `x` is folded to the
constant outside, though the block declares it. -/
theorem folds_beyond_shadowing :
    let tree := shadowing (.call ⟨22, 26⟩ (.identifier ⟨22, 23⟩ "f" none)
      [⟨none, .identifier ⟨24, 25⟩ "a" none⟩] none)
    let document : Document :=
      .new "a.js" "javascript" 1 "const x=null;\x7bconst x=f(a);const y=x\x7d"
    let v := Coloring.searching document tree .never
    ∃ m : Moment (Option CallKind) (List Swatch),
      m.Occurs v tree none (.start (.withModules []) []) ∧
        tree.at? [1, 1, 0, 0] = some (.identifier ⟨35, 36⟩ "x" none) ∧
        Reaches tree m.step.path [1, 1, 0, 0] ∧
        m.step.memory.tracker.evaluate (.identifier ⟨35, 36⟩ "x" none) = .known .null ⟨35, 36⟩ ∧
        Node.Innermost (declares "x") tree [1, 1, 0, 0] [1] ∧
        ¬m.Folded tree [1] "x" .null := by
  intro tree document v
  let steps := v.steps tree none none (.start (.withModules []) [])
  obtain ⟨s, hs, henters, hpath, hlookup⟩ : ∃ s, steps[35]? = some s ∧ s.hook = .enter ∧
      s.path = [1, 1] ∧ s.memory.tracker.lookup? "x" = some .null :=
    exists_enter (.inl rfl) (by decide +kernel)
  have hoccurs := exists_occurs hs henters
  refine ⟨_, hoccurs, rfl, ?_, ?_, ?_, ?_⟩
  · show Reaches tree s.path [1, 1, 0, 0]
    rw [hpath]
    exact reaches_of_inits (by decide) (by decide +kernel)
  · exact evaluate_identifier_eq_known.2 ⟨rfl, .inr ⟨by decide, hlookup⟩⟩
  · rw [Node.innermost_iff, show tree.enclosing (declares "x") [1, 1, 0, 0] = [[1], []] by
      decide +kernel]
    rfl
  · -- neither statement of the block folds `x`, and no statement is an export
    have hstatement : ∀ i n, tree.at? [1, i] = some n → ∀ t, ¬Folds t (constants n) "x" .null := by
      rintro i n hnode t ⟨before, d, after, u, hlist, -, hd⟩
      have hmem : d ∈ constants n := by simp [hlist]
      rcases i with _ | _ | i
      · rw [← Option.some.inj hnode] at hmem
        rw [List.mem_singleton.1 hmem] at hd
        exact constant?_call_ne_null _ _ _ _ _ _ _ _ hd
      · rw [← Option.some.inj hnode] at hmem
        rw [List.mem_singleton.1 hmem] at hd
        exact absurd (declaredName?_of_constant? hd) (by decide)
      · cases hnode
    have hexport : ∀ i, (tree.at? ([1] ++ [i])).any isExport = false := by
      rintro (_ | _ | i) <;> rfl
    rintro (⟨e, he, -, ⟨-, ⟨i, hi⟩ | ⟨i, j, -, hi⟩⟩, hfolds⟩ | ⟨-, before, d, after, u, hbound, -⟩)
    · have hnode := hoccurs.at?_eq.2 e he
      rw [hi] at hnode
      exact hstatement i e.node hnode e.memory.tracker hfolds
    · rw [hexport] at hi
      cases hi
    · exact absurd hbound.symm (by simp)

end Assist

end StyleSense
