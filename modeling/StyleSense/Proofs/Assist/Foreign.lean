/-
# Files without the style API

Only a name of the style API leads to an answer: a call of one of its members,
or a type that it exports. In a file that neither brings it in nor uses the one
name that stands for it everywhere, nothing is found, whatever else the file
imports and calls.

The tracker of such a file stays bare all along the walk, so that no expression
in it resolves. No walk then sees itself inside a style call, and each of the
three analyses looks for its answers there; swatches are also looked for in
types, of which none is a style type.
-/

import StyleSense.Proofs.Assist.Frames
import StyleSense.Proofs.Evaluate.Likeness
import StyleSense.Proofs.Tree.Halting

namespace StyleSense

variable {modules : List String} {t u : Tracker} {n : Node}

/-- Whether a node by itself has to do with the style API: it is the name that
stands for it everywhere, or brings it in from one of its modules. -/
def Node.namesStyles (modules : List String) : Node → Bool
  | .identifier _ name _ => name = defaultNamespace
  | .importFrom _ _ source _ => source.stringValue?.any modules.contains
  | .declarator _ _ init =>
      (init.bind Tracker.requiredModule?).any fun required => modules.contains required.1
  | _ => false

/-- A tree that has nothing to do with the style API. -/
def Node.Foreign (modules : List String) (root : Node) : Prop :=
  ∀ n ∈ root.preorder, n.namesStyles modules = false

theorem Node.Foreign.child (h : n.Foreign modules) {c : ChildRef × Node} (hc : c ∈ n.children) :
    c.2.Foreign modules := fun m hm =>
  h m (Node.mem_preorder_of_child hc hm)

theorem Node.Foreign.self (h : n.Foreign modules) : n.namesStyles modules = false :=
  h n n.mem_preorder_self

namespace Tracker

/-- A tracker that knows no name of the style API but the default one. -/
structure Bare (modules : List String) (t : Tracker) : Prop where
  namespaces : t.namespaces = [defaultNamespace]
  members : t.members = []
  modules : t.modules = modules

theorem bare_withModules (modules : List String) : (withModules modules).Bare modules :=
  ⟨rfl, rfl, rfl⟩

/-- Constants are no names of the style API. -/
theorem Bare.of_frames (h : t.Bare modules) (frames : List (Dictionary Value)) :
    Bare modules { t with frames } :=
  ⟨h.namespaces, h.members, h.modules⟩

theorem Bare.bind (h : t.Bare modules) {name : String} {value : Value}
    (hbind : t.bind name value = .ok u) : u.Bare modules := by
  unfold Tracker.bind at hbind
  split at hbind
  · cases hbind
  · cases hbind
    exact h.of_frames _

theorem Bare.pop (h : t.Bare modules) (hpop : t.pop = .ok u) : u.Bare modules := by
  unfold Tracker.pop at hpop
  split at hpop
  · cases hpop
  · cases hpop
    exact h.of_frames _

theorem Bare.member?_eq_none (h : t.Bare modules) (name : String) : t.member? name = none := by
  rw [member?, h.members]
  rfl

theorem Bare.isNamespace_eq_false (h : t.Bare modules) {name : String}
    (hnode : n.Foreign modules) (hname : n.identifierName? = some name) :
    t.isNamespace name = false := by
  have hself := hnode.self
  cases n with
  | identifier span own annotation =>
      cases hname
      rw [isNamespace, h.namespaces, List.contains_cons, List.contains_nil, Bool.or_false]
      exact beq_false_of_ne (of_decide_eq_false hself)
  | _ => cases hname

theorem Bare.resolveCallee?_eq_none (h : t.Bare modules) (hnode : n.Foreign modules) :
    t.resolveCallee? n = none := by
  cases n with
  | identifier span name annotation => exact h.member?_eq_none name
  | member span object property =>
      have hobject : object.Foreign modules := hnode.child (.head _)
      rw [resolveCallee?]
      split
      next name hname =>
        rw [h.isNamespace_eq_false hobject hname]
        rfl
      next => rfl
  | _ => rfl

theorem Bare.owner?_eq_none (h : t.Bare modules) (hnode : n.Foreign modules) :
    t.owner? n = none := by
  cases n with
  | identifier span name annotation => exact h.member?_eq_none name
  | member => exact h.resolveCallee?_eq_none hnode
  | _ => rfl

theorem Bare.resolveValueType?_eq_none (h : t.Bare modules) (hnode : n.Foreign modules) :
    t.resolveValueType? n = none := by
  cases n with
  | member span object property =>
      have hobject : object.Foreign modules := hnode.child (.head _)
      rw [resolveValueType?_member, h.owner?_eq_none hobject]
      cases property.identifierName? <;> rfl
  | _ => rfl

theorem Bare.addImport (h : t.Bare modules) {span : Span} {specifiers : List Node} {source : Node}
    {asserts : Option Node}
    (hnode : (Node.importFrom span specifiers source asserts).Foreign modules) :
    t.addImport specifiers source = t := by
  have hself := hnode.self
  rw [Node.namesStyles] at hself
  rw [Tracker.addImport]
  split
  next module hmodule =>
    rw [hmodule, Option.any_some, ← h.modules] at hself
    rw [acceptsModule, hself]
    rfl
  next => rfl

theorem Bare.addRequire (h : t.Bare modules) {span : Span} {target : Node} {init : Option Node}
    (hnode : (Node.declarator span target init).Foreign modules) :
    t.addRequire target init = t := by
  have hself := hnode.self
  rw [Node.namesStyles] at hself
  refine addRequire_eq_self (fun required hrequired => ?_) target
  rw [hrequired, Option.any_some, ← h.modules] at hself
  exact hself

end Tracker

namespace Assist

open StyleSense.Text StyleSense.Style

variable {α β : Type}

theorem styleCall?_eq_none (h : t.Bare modules) (hnode : n.Foreign modules) :
    styleCall? t n = none := by
  rw [styleCall?, h.resolveCallee?_eq_none hnode]
  rfl

theorem bare_bindConstants (h : t.Bare modules) {declarators : List Node}
    (hbind : bindConstants t declarators = .ok u) : u.Bare modules := by
  fun_induction bindConstants t declarators with
  | case1 t =>
      cases hbind
      exact h
  | case2 t span target init rest name value hname hvalue ih =>
      rcases hbound : t.bind name value with error | bound
      · rw [hbound] at hbind
        cases hbind
      · rw [hbound] at hbind
        exact ih bound (h.bind hbound) hbind
  | case3 t span target init rest hnone ih => exact ih h hbind
  | case4 t other rest hother ih => exact ih h hbind

/-- Notes of a walk that has not met the style API: nothing more was found, and
no text was cut. -/
structure Notes.Idle (modules : List String) (found : β) (notes : Notes β) : Prop where
  bare : notes.tracker.Bare modules
  found : notes.found = found
  uncut : ∀ error, notes.failure ≠ some (.cut error)

variable {found : β} {notes : Notes β}

theorem Notes.Idle.settle (h : notes.Idle modules found) {result : Except ScopeError Tracker}
    (hresult : ∀ t, result = .ok t → t.Bare modules) :
    (notes.settle (α := α) result).2.Idle modules found := by
  cases result with
  | ok t => exact ⟨hresult t rfl, h.found, h.uncut⟩
  | error error => exact ⟨h.bare, h.found, nofun⟩

theorem Notes.Idle.enter (h : notes.Idle modules found) (hnode : n.Foreign modules) :
    (notes.enter (α := α) n).2.Idle modules found := by
  cases n with
  | program | block => exact ⟨h.bare.of_frames _, h.found, h.uncut⟩
  | declaration span kind declarations =>
      rw [Notes.enter]
      split
      · exact h.settle fun t ht => bare_bindConstants h.bare ht
      · exact h
  | declarator span target init =>
      rw [Notes.enter, h.bare.addRequire hnode]
      exact h
  | importFrom span specifiers source asserts =>
      rw [Notes.enter, h.bare.addImport hnode]
      exact h
  | plain form span slots rest => cases form <;> exact h
  | _ => exact h

theorem Notes.Idle.leave (h : notes.Idle modules found) (node : Node) :
    (notes.leave (α := α) node).2.Idle modules found := by
  have hpop : (notes.settle (α := α) notes.tracker.pop).2.Idle modules found :=
    h.settle fun t ht => h.bare.pop ht
  rw [Notes.leave]
  split
  · rcases hsettle : notes.settle (α := α) notes.tracker.pop with ⟨- | flow, next⟩ <;>
      · rw [hsettle] at hpop
        exact hpop
  · exact h

/-- A look that takes no notes of foreign nodes, as long as it is outside of all
style calls, and stays outside. -/
def Overlooks (modules : List String) (Outside : α → Prop)
    (look : Node → Option Node → α → Notes β → Flow α × Notes β) : Prop :=
  ∀ node parent place notes, node.Foreign modules → Outside place →
    notes.tracker.Bare modules →
      (look node parent place notes).2 = notes ∧
        ((look node parent place notes).1 = .continue ∨
          ∃ next, (look node parent place notes).1 = .replace next ∧ Outside next)

section

variable {token : Token} {prunes : Node → Bool} {Outside : α → Prop}
  {look : Node → Option Node → α → Notes β → Flow α × Notes β}

theorem Overlooks.keeps (hlook : Overlooks modules Outside look) (found : β) :
    Visitor.Keeps Outside (Notes.Idle modules found) (Node.Foreign modules)
      (visitor token prunes look) where
  before {node parent place notes} hnode hplace hnotes := by
    have hcounted : notes.counted.Idle modules found :=
      ⟨hnotes.bare, hnotes.found, hnotes.uncut⟩
    cases hpruned : (!alwaysVisited node && prunes node) with
    | true =>
        rw [before_of_leftOut hpruned]
        exact ⟨hcounted, nofun⟩
    | false =>
        rw [before_of_kept hpruned]
        have hentered := hcounted.enter (α := α) hnode
        dsimp only [visitor]
        rcases henter : notes.counted.enter (α := α) node with ⟨flow, next⟩
        rw [henter] at hentered
        cases flow with
        | some flow =>
            refine ⟨hentered, fun handed ignored h => ?_⟩
            rcases Notes.ends_of_enter henter with rfl | rfl <;> cases h
        | none =>
            dsimp only
            obtain ⟨hsame, hflow⟩ := hlook node parent place next hnode hplace hentered.bare
            rw [hsame]
            refine ⟨hentered, fun handed ignored h => ?_⟩
            rcases hflow with hflow | ⟨inner, hflow, hinner⟩ <;> rw [hflow] at h <;> cases h
            · exact hplace
            · exact hinner
  after {node place notes} _ _ hnotes := by
    have hleft := hnotes.leave (α := α) node
    dsimp only [Visitor.after, visitor]
    rcases hleave : notes.leave (α := α) node with ⟨flow, next⟩
    rw [hleave] at hleft
    cases flow <;> exact hleft

/-- What such a look finds in a whole file: nothing. -/
theorem Overlooks.answer_eq {γ : Type} (hlook : Overlooks modules Outside look)
    (hobserves : Observes look) (hlive : ∀ n, token n = false) {type : SourceType} {span : Span}
    {body : List Node} (hforeign : (Node.program type span body).Foreign modules) {place : α}
    (hplace : Outside place) (found : β) (f : Option β → γ) :
    answer (visitor token prunes look) (.program type span body) place
      (.start (.withModules modules) found) f = .ok (f (some found)) := by
  let v := visitor token prunes look
  let root := Node.program type span body
  let notes : Notes β := .start (.withModules modules) found
  have hidle : (v.visit root none place notes).2.Idle modules found :=
    (hlook.keeps found).visit (fun _ h _ hc => h.child hc) hforeign hplace
      ⟨Tracker.bare_withModules modules, rfl, nofun⟩
  have hscope : ∀ error, answer v root place notes f ≠ .error (.scope error) :=
    (inScope_visitor hobserves root place (.withModules modules) found f).noFailure rfl
  have hended : (v.walk root place notes).1 ≠ .canceled := fun hcanceled => by
    have hhalt := (Visitor.walk_eq_ofHalt_iff (some .canceled)).1 hcanceled
    have hfired : token _ = true := Visitor.canceled_of_visit hhalt
    rw [hlive] at hfired
    cases hfired
  have hfailure : (v.walk root place notes).2.failure = none := by
    rcases hnoted : (v.walk root place notes).2.failure with - | error | error
    · rfl
    · refine absurd ?_ (hscope error)
      change ((v.walk root place notes).2.finish (v.walk root place notes).1).map f = _
      rw [Notes.finish, hnoted]
      rfl
    · exact absurd hnoted (hidle.uncut error)
  change ((v.walk root place notes).2.finish (v.walk root place notes).1).map f = _
  rw [Notes.finish, hfailure]
  dsimp only
  rw [if_neg hended, show (v.walk root place notes).2.found = found from hidle.found]
  rfl

end

theorem Hover.overlooks (q : Hover.Query) :
    Overlooks modules (fun place => place.call = none) (Hover.look q) := by
  intro node parent place notes hnode hplace hbare
  cases node with
  | call span callee arguments types =>
      have hcallee : callee.Foreign modules := hnode.child (.head _)
      refine ⟨rfl, .inr ⟨{ place with call := none, caller := none, pendingCaller := none },
        ?_, rfl⟩⟩
      simp only [Hover.look, Hover.enterCall, styleCall?_eq_none hbare hcallee,
        hbare.resolveValueType?_eq_none hcallee]
  | pair kind key value =>
      cases kind with
      | property =>
          simp only [Hover.look, Hover.enterPair, hplace]
          exact ⟨trivial, .inl trivial⟩
      | _ => exact ⟨rfl, .inl rfl⟩
  | _ => exact ⟨rfl, .inl rfl⟩

theorem Completing.overlooks (q : Completing.Query) :
    Overlooks modules (fun place => place.call = none) (Completing.look q) := by
  intro node parent place notes hnode hplace hbare
  cases node with
  | call span callee arguments types =>
      have hcallee : callee.Foreign modules := hnode.child (.head _)
      refine ⟨rfl, .inr ⟨{ place with call := none }, ?_, rfl⟩⟩
      simp only [Completing.look, Completing.enterCall, styleCall?_eq_none hbare hcallee,
        hbare.resolveCallee?_eq_none hcallee]
      rfl
  | pair kind key value =>
      cases kind with
      | property =>
          simp only [Completing.look, Completing.enterPair, hplace]
          exact ⟨trivial, .inl trivial⟩
      | _ => exact ⟨rfl, .inl rfl⟩
  | string span value =>
      rw [Completing.look]
      split
      · exact ⟨rfl, .inl rfl⟩
      · rw [Completing.enterLiteral, hplace]
        exact ⟨rfl, .inl rfl⟩
  | _ => exact ⟨rfl, .inl rfl⟩

theorem Coloring.isStyleType_eq_false (hbare : t.Bare modules) (hnode : n.Foreign modules) :
    Coloring.isStyleType t n = false := by
  cases n with
  | identifier span name annotation => rw [Coloring.isStyleType, hbare.member?_eq_none]
  | qualifiedName span left right =>
      have hleft : left.Foreign modules := hnode.child (.head _)
      rw [Coloring.isStyleType]
      cases hname : left.identifierName? with
      | none => rfl
      | some name =>
          rw [Option.any_some, hbare.isNamespace_eq_false hleft hname]
          rfl
  | _ => rfl

theorem Coloring.overlooks (q : Coloring.Query) :
    Overlooks modules (· = none) (Coloring.look q) := by
  intro node parent call notes hnode hcall hbare
  cases node with
  | call span callee arguments types =>
      have hcallee : callee.Foreign modules := hnode.child (.head _)
      simp only [Coloring.look, styleCall?_eq_none hbare hcallee]
      exact ⟨trivial, .inl trivial⟩
  | typeReference span name params =>
      have hname : name.Foreign modules := hnode.child (.head _)
      have hnone : Coloring.ofReference q notes.tracker name params = [] := by
        unfold Coloring.ofReference
        split
        · rw [Coloring.isStyleType_eq_false hbare hname]
          rfl
        · rfl
      simp only [Coloring.look, hnone, List.append_nil]
      exact ⟨trivial, .inl trivial⟩
  | pair kind key value =>
      cases kind with
      | property =>
          simp only [Coloring.look, hcall]
          exact ⟨rfl, .inl rfl⟩
      | _ => exact ⟨rfl, .inl rfl⟩
  | _ => exact ⟨rfl, .inl rfl⟩

/-- A file that has nothing to do with the style API has no previews, no
suggestions and no swatches, wherever the cursor is, if the request is not
called off. -/
theorem answers_foreign (document : Document) (modules : List String) {type : SourceType}
    {span : Span} {body : List Node} (hforeign : (Node.program type span body).Foreign modules)
    (position : Position) (normalize : Normalization) {token : Token}
    (hlive : ∀ n, token n = false) :
    let tree := Node.program type span body
    hover? document tree (.withModules modules) position normalize token = .ok none ∧
      completions? document tree (.withModules modules) position token = .ok (some ⟨[], true⟩) ∧
      swatches? document tree (.withModules modules) token = .ok (some []) := by
  intro tree
  rw [hover?_eq_answer, completions?_eq_answer, swatches?_eq_answer]
  refine ⟨?_, ?_, ?_⟩
  · exact (Hover.overlooks _).answer_eq (Hover.observes_look _) hlive hforeign rfl none _
  · exact (Completing.overlooks _).answer_eq (Completing.observes_look _) hlive hforeign rfl [] _
  · refine ((Coloring.overlooks _).answer_eq (Coloring.observes_look _) hlive hforeign rfl []
      _).trans ?_
    rw [Option.map_some, List.mergeSort_nil]

/-- A call of what another module exports under the name `create`. -/
def createOther : Node :=
  let name (start stop : UInt32) (text : String) : Node := .identifier ⟨start, stop⟩ text none
  let color : Node := .pair .property (name 41 46 "color") (.string ⟨47, 52⟩ "red")
  let style : Node := .pair .property (name 38 39 "a") (.object ⟨40, 53⟩ [color])
  .program .module ⟨1, 55⟩
    [.importFrom ⟨1, 29⟩ [.importNamed ⟨9, 15⟩ (name 9 15 "create") none]
        (.string ⟨22, 29⟩ "other") none,
      .call ⟨30, 55⟩ (name 30 36 "create") [⟨none, .object ⟨37, 54⟩ [style]⟩] none]

/-- With the cursor in the string there is nothing to show, but if the module
were taken for one of the style API, the color in the string would be found. -/
theorem answers_foreign_createOther :
    let document : Document := .new "a.js" "javascript" 1
      "import \x7bcreate\x7d from \"other\"\ncreate(\x7ba:\x7bcolor:\"red\"\x7d\x7d)"
    createOther.Foreign defaultModules ∧
      hover? document createOther .new ⟨1, 19⟩ (⟨false⟩ : Normalizer) .never = .ok none ∧
      completions? document createOther .new ⟨1, 19⟩ .never = .ok (some ⟨[], true⟩) ∧
      swatches? document createOther .new .never = .ok (some []) ∧
      (swatches? document createOther (.withModules ["other"]) .never).toOption.join.map
        List.length = some 1 := by
  intro document
  have hforeign : createOther.Foreign defaultModules := by
    unfold Node.Foreign
    decide +kernel
  obtain ⟨hhover, hcompletions, hswatches⟩ := answers_foreign document defaultModules hforeign
    ⟨1, 19⟩ (⟨false⟩ : Normalizer) (fun _ => rfl)
  exact ⟨hforeign, hhover, hcompletions, hswatches, by decide +kernel⟩

end Assist

end StyleSense
