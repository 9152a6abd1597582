/-
# Pruning is only an optimisation

Hover does not look into nodes that the cursor does not touch. The reference is
the same walk without that exception. Both give the same answer on a tree whose
spans nest around keys, whose constants stand directly in a block and whose
imports stand at the top.

Two walks are compared. Where both look at a node, they take the same notes but
for the number of nodes. Where only the reference goes on, it is below a node
that the cursor does not touch: it finds nothing there, and since constants
stand directly in blocks, the frames that it opens take all that it learns with
them when they are left.
-/

import StyleSense.Assist.Hover
import StyleSense.Proofs.Assist.Notes
import StyleSense.Proofs.Document
import StyleSense.Proofs.Tree.Walk

namespace StyleSense

/-- Whether a span starts no later and ends no earlier than another. -/
def Span.Covers (a b : Span) : Prop :=
  a.start ≤ b.start ∧ b.stop ≤ a.stop

namespace Assist

open StyleSense.Text StyleSense.Style

/-- The preview at a position, found by a walk that leaves out no node for where
the cursor is. -/
def hoverEverywhere? (document : Document) (tree : Node) (tracker : Tracker)
    (position : Position) (normalize : Normalization) (token : Token) :
    Except Failure (Option Hover) :=
  let q : Hover.Query :=
    ⟨document, normalize, spanBase document tree, document.byteOfPosition position⟩
  let v := visitor token (fun _ => false) (Hover.look q)
  let (outcome, notes) := v.walk tree Hover.Place.outside (.start tracker none)
  (notes.finish outcome).map Option.join

/-- Declarations of constants. -/
def isConstant : Node → Bool
  | .declaration _ kind _ => kind = "const"
  | _ => false

/-- Exports of declarations. -/
def isExport : Node → Bool
  | .plain .exportDeclaration .. => true
  | _ => false

/-- Whether ancestors, the closest first, put a node directly into a frame,
perhaps as an export. -/
def directlyFramed : List Node → Bool
  | [] => false
  | parent :: others => opensFrame parent || isExport parent && others.head?.any opensFrame

/-- Nodes that bring in names of the style API, given the modules that export
it. Imports count whatever they import. -/
def bringsIn (modules : List String) : Node → Bool
  | .importFrom .. => true
  | .declarator _ _ init =>
      (init.bind Tracker.requiredModule?).any fun required => modules.contains required.1
  | _ => false

/-- Trees on which the cursor decides nothing but where a key is sought. -/
structure Orderly (modules : List String) (root : Node) : Prop where
  /-- Every node that may be left out covers the keys in it. -/
  keys : ∀ ancestors key value,
    Node.Lineage root ancestors (.pair .property key value) →
      ∀ n ∈ .pair .property key value :: ancestors,
        alwaysVisited n = false → n.span.Covers key.span
  /-- Constants stand directly in a module, a script or a block, or are exported
  there. -/
  constants : ∀ ancestors n, Node.Lineage root ancestors n →
    isConstant n = true → directlyFramed ancestors = true
  /-- The style API is brought in at the top. -/
  aliases : ∀ ancestors n, Node.Lineage root ancestors n →
    bringsIn modules n = true → ∀ ancestor ∈ ancestors, alwaysVisited ancestor = true

/-- Nodes whose visit may leave constants in the frame around them. -/
def Binds (n : Node) : Prop :=
  isConstant n = true ∨ isExport n = true ∧ ∃ c ∈ n.children, isConstant c.2 = true

theorem alwaysVisited_of_binds {n : Node} (h : Binds n) : alwaysVisited n = true := by
  rcases h with hconstant | ⟨hexport, -⟩
  · unfold isConstant at hconstant
    split at hconstant
    · rfl
    · cases hconstant
  · unfold isExport at hexport
    split at hexport
    · rfl
    · cases hexport

/-- Only below a frame or an export does a child leave constants. -/
theorem Orderly.binds_of_child {modules : List String} {root n : Node} {ancestors : List Node}
    (h : Orderly modules root) (hn : Node.Lineage root ancestors n) {c : ChildRef × Node}
    (hc : c ∈ n.children) (hbinds : Binds c.2) : opensFrame n = true ∨ Binds n := by
  rcases hbinds with hconstant | ⟨hexport, d, hd, hconstant⟩
  · have hframed := h.constants (n :: ancestors) c.2 (hn.child hc) hconstant
    rw [directlyFramed, Bool.or_eq_true, Bool.and_eq_true] at hframed
    rcases hframed with hopens | ⟨hexport, -⟩
    · exact .inl hopens
    · exact .inr (.inr ⟨hexport, c, hc, hconstant⟩)
  · have hframed := h.constants (c.2 :: n :: ancestors) d.2 ((hn.child hc).child hd) hconstant
    rw [directlyFramed, Bool.or_eq_true, Bool.and_eq_true] at hframed
    rcases hframed with hopens | ⟨-, hopens⟩
    · unfold isExport at hexport
      split at hexport
      · rename_i heq
        rw [heq] at hopens
        cases hopens
      · cases hexport
    · exact .inl hopens

/-- Notes that differ at most in the number of nodes and, where that is
allowed, in the constants of the innermost frame. -/
structure Undisturbed {β : Type} (loose : Prop) (m n : Notes β) : Prop where
  found : n.found = m.found
  failure : n.failure = m.failure
  outside : m.tracker.SameOutside n.tracker
  tracker : ¬loose → n.tracker = m.tracker

section

variable {β : Type} {m n k : Notes β} {loose more : Prop}

theorem Undisturbed.recounted (loose : Prop) (m : Notes β) (visited : Nat) :
    Undisturbed loose m (m.recounted visited) :=
  ⟨rfl, rfl, .refl _, fun _ => rfl⟩

theorem Undisturbed.refl (loose : Prop) (m : Notes β) : Undisturbed loose m m :=
  recounted loose m m.visited

theorem Undisturbed.trans (h : Undisturbed loose m n) (h' : Undisturbed loose n k) :
    Undisturbed loose m k where
  found := h'.found.trans h.found
  failure := h'.failure.trans h.failure
  outside := h.outside.trans h'.outside
  tracker hstrict := (h'.tracker hstrict).trans (h.tracker hstrict)

theorem Undisturbed.mono (h : Undisturbed loose m n) (hmore : loose → more) :
    Undisturbed more m n :=
  ⟨h.found, h.failure, h.outside, fun hstrict => h.tracker (hstrict ∘ hmore)⟩

/-- Strictly undisturbed notes differ in the number of nodes alone. -/
theorem Undisturbed.eq_recounted (h : Undisturbed loose m n) (hstrict : ¬loose) :
    n = m.recounted n.visited := by
  obtain ⟨tracker, failure, visited, found⟩ := n
  obtain ⟨hfound, hfailure, -, htracker⟩ := h
  cases hfound
  cases hfailure
  cases htracker hstrict
  rfl

end

namespace Hover

/-- A key either leaves the notes alone and lets the walk go on, or it is under
the cursor, and ends the walk with what was found. Which of these it is depends
on the names alone. -/
theorem enterPair_cases (q : Query) (key value : Node) (place : Place) (t : Tracker) :
    (∃ flow, flow ≠ .exit ∧ ∀ notes : Notes (Option Hover), notes.tracker = t →
        enterPair q key value place notes = (flow, notes)) ∨
      q.touches key.span = true ∧
        ∃ found, ∀ notes : Notes (Option Hover), notes.tracker = t →
          enterPair q key value place notes = (.exit, { notes with found }) := by
  rcases hcall : place.call with - | call
  · refine .inl ⟨.continue, nofun, ?_⟩
    intro notes ht
    simp only [enterPair, hcall]
  · rcases hname : t.propertyKey? key with - | name
    · refine .inl ⟨.continue, nofun, ?_⟩
      intro notes ht
      simp only [enterPair, ht, hcall, hname]
    · rcases hvalue : unwrap t value with - | ⟨inner, type⟩
      · refine .inl ⟨.skip, nofun, ?_⟩
        intro notes ht
        simp only [enterPair, ht, hcall, hname, hvalue]
      · by_cases hnested : isNested inner = true
        · refine .inl ⟨.replace { place with parents := place.parents ++ [name] }, nofun, ?_⟩
          intro notes ht
          simp only [enterPair, ht, hcall, hname, hvalue, if_pos hnested]
        · by_cases hkeyframes : isKeyframes t value = true
          · let keyframes : Place := ⟨some .keyframes, none, [], place.valueType, some name⟩
            refine .inl ⟨.replace keyframes, nofun, ?_⟩
            intro notes ht
            simp only [enterPair, ht, hcall, hname, hvalue, if_neg hnested, if_pos hkeyframes,
              keyframes]
          · by_cases htouches : q.touches key.span = true
            · let site : Site :=
                { call, caller := place.caller, parents := place.parents, key := name
                  valueType := type.orElse fun _ => place.valueType }
              refine .inr ⟨htouches, preview? q site key.span (t.evaluate inner), ?_⟩
              intro notes ht
              simp only [enterPair, ht, hcall, hname, hvalue, if_neg hnested, if_neg hkeyframes,
                if_pos htouches, site]
            · refine .inl ⟨.continue, nofun, ?_⟩
              intro notes ht
              simp only [enterPair, ht, hcall, hname, hvalue, if_neg hnested, if_neg hkeyframes,
                if_neg htouches]

theorem enterCall_ne_exit (t : Tracker) (callee : Node) (parent : Option Node) (place : Place) :
    enterCall t callee parent place ≠ .exit := by
  unfold enterCall
  split
  · nofun
  · split
    · nofun
    · nofun

/-- All that looking at a node can do. -/
theorem look_cases (q : Query) (node : Node) (parent : Option Node) (place : Place)
    (t : Tracker) :
    (∃ flow, flow ≠ .exit ∧ ∀ notes : Notes (Option Hover), notes.tracker = t →
        look q node parent place notes = (flow, notes)) ∨
      (∃ key value, node = .pair .property key value ∧ q.touches key.span = true) ∧
        ∃ found, ∀ notes : Notes (Option Hover), notes.tracker = t →
          look q node parent place notes = (.exit, { notes with found }) := by
  unfold look
  split
  case h_1 span callee arguments typeArgs =>
    exact .inl ⟨enterCall t callee parent place, enterCall_ne_exit t callee parent place,
      fun notes ht => by rw [ht]⟩
  case h_2 key value =>
    rcases enterPair_cases q key value place t with hgoes | ⟨htouches, hends⟩
    · exact .inl hgoes
    · exact .inr ⟨⟨key, value, rfl, htouches⟩, hends⟩
  case h_3 => exact .inl ⟨.continue, nofun, fun _ _ => rfl⟩

/-- Looking changes what is found, and only that. -/
theorem tracker_look (q : Query) (node : Node) (parent : Option Node) (place : Place)
    (notes : Notes (Option Hover)) :
    (look q node parent place notes).2.tracker = notes.tracker := by
  rcases look_cases q node parent place notes.tracker with ⟨flow, -, hlook⟩ | ⟨-, found, hlook⟩
  · rw [hlook notes rfl]
  · rw [hlook notes rfl]

theorem look_recounted (q : Query) (node : Node) (parent : Option Node) (place : Place)
    (notes : Notes (Option Hover)) (visited : Nat) :
    look q node parent place (notes.recounted visited) =
      ((look q node parent place notes).1,
        (look q node parent place notes).2.recounted visited) := by
  rcases look_cases q node parent place notes.tracker with ⟨flow, -, hlook⟩ | ⟨-, found, hlook⟩
  · rw [hlook notes rfl, hlook (notes.recounted visited) rfl]
  · rw [hlook notes rfl, hlook (notes.recounted visited) rfl]
    rfl

/-- The walk that leaves out what the cursor does not touch. A request is called
off before it starts, or not at all. -/
def pruning (q : Query) (called : Bool) : Visitor (Notes (Option Hover)) Place :=
  visitor (fun _ => called) (fun node => !q.touches node.span) (look q)

/-- The walk that looks into every node. -/
def everywhere (q : Query) (called : Bool) : Visitor (Notes (Option Hover)) Place :=
  visitor (fun _ => called) (fun _ => false) (look q)

variable {q : Query} {called : Bool} {node : Node} {parent : Option Node} {place : Place}
  {notes : Notes (Option Hover)}

/-- Both walks do the same once they look at a node. -/
def enterNode (q : Query) (node : Node) (parent : Option Node) (place : Place)
    (notes : Notes (Option Hover)) : Flow Place × Notes (Option Hover) :=
  (everywhere q false).enter node parent place notes

theorem before_everywhere (q : Query) (called : Bool) (node : Node) (parent : Option Node)
    (place : Place) (notes : Notes (Option Hover)) :
    (everywhere q called).before node parent place notes =
      let (flow, next) := enterNode q node parent place (notes.recounted (notes.visited + 1))
      (Visitor.absorb place [] flow, next) := by
  simp only [Visitor.before, everywhere, visitor, Bool.and_false, Bool.false_eq_true, if_false,
    Visitor.absorb]
  rfl

theorem before_pruning_of_kept (h : alwaysVisited node = true ∨ q.touches node.span = true) :
    (pruning q called).before node parent place notes =
      (everywhere q called).before node parent place notes := by
  have hkept : (!alwaysVisited node && !q.touches node.span) = false := by
    rcases h with h | h
    · rw [h]
      rfl
    · rw [h, Bool.not_true, Bool.and_false]
  rw [before_everywhere]
  simp only [Visitor.before, pruning, visitor, hkept, Bool.false_eq_true, if_false,
    Visitor.absorb]
  rfl

theorem before_pruning_of_leftOut (halways : alwaysVisited node = false)
    (htouches : q.touches node.span = false) :
    (pruning q called).before node parent place notes =
      (.inl none, notes.recounted (notes.visited + 1)) := by
  have hout : (!alwaysVisited node && !q.touches node.span) = true := by
    rw [halways, htouches]
    rfl
  simp only [Visitor.before, pruning, visitor, hout, if_true, Visitor.absorb]
  rfl

theorem enterNode_recounted (q : Query) (node : Node) (parent : Option Node) (place : Place)
    (notes : Notes (Option Hover)) (visited : Nat) :
    enterNode q node parent place (notes.recounted visited) =
      ((enterNode q node parent place notes).1,
        (enterNode q node parent place notes).2.recounted visited) := by
  simp only [enterNode, everywhere, visitor, Notes.enter_recounted]
  rcases notes.enter (α := Place) node with ⟨- | flow, next⟩
  · exact look_recounted q node parent place next visited
  · rfl

theorem modules_enterNode (q : Query) (node : Node) (parent : Option Node) (place : Place)
    (notes : Notes (Option Hover)) :
    (enterNode q node parent place notes).2.tracker.modules = notes.tracker.modules := by
  have henter := notes.modules_enter (α := Place) node
  simp only [enterNode, everywhere, visitor]
  rcases hentered : notes.enter (α := Place) node with ⟨- | flow, next⟩
  · rw [hentered] at henter
    rw [tracker_look]
    exact henter
  · rw [hentered] at henter
    exact henter

/-- The start of a frame. -/
theorem enterNode_of_opensFrame (h : opensFrame node = true) :
    enterNode q node parent place notes =
      (.continue, { notes with tracker := notes.tracker.push }) := by
  unfold opensFrame at h
  split at h
  · rfl
  · rfl
  · cases h

/-- A node that opens no frame, brings in no names and is no key under the
cursor lets the walk go on. Only a declaration of constants changes the notes. -/
theorem enterNode_quiet (parent : Option Node) (place : Place) (hopens : opensFrame node = false)
    (hbrings : bringsIn notes.tracker.modules node = false)
    (hkey : ∀ key value, node = .pair .property key value → q.touches key.span = false)
    (hframed : isConstant node = true → notes.tracker.frames ≠ []) :
    ∃ flow next, enterNode q node parent place notes = (flow, next) ∧ flow ≠ .exit ∧
      Undisturbed (isConstant node = true) notes next := by
  -- What is left to say once the notes have been taken.
  have hlook : ∀ next : Notes (Option Hover), notes.enter (α := Place) node = (none, next) →
      Undisturbed (isConstant node = true) notes next →
      ∃ flow next, enterNode q node parent place notes = (flow, next) ∧ flow ≠ .exit ∧
        Undisturbed (isConstant node = true) notes next := by
    intro next hnext hundisturbed
    rcases look_cases q node parent place next.tracker with
      ⟨flow, hflow, hlook⟩ | ⟨⟨key, value, hnode, htouches⟩, -⟩
    · refine ⟨flow, next, ?_, hflow, hundisturbed⟩
      simp only [enterNode, everywhere, visitor, hnext]
      exact hlook next rfl
    · rw [hkey key value hnode] at htouches
      cases htouches
  cases node with
  | program => cases hopens
  | block => cases hopens
  | importFrom => cases hbrings
  | declaration span kind declarations =>
      by_cases hkind : kind = "const"
      · have hconstant : isConstant (.declaration span kind declarations) = true :=
          decide_eq_true hkind
        obtain ⟨u, hu, hsame⟩ := exists_bindConstants_eq (hframed hconstant) declarations
        refine hlook { notes with tracker := u } ?_ ⟨rfl, rfl, hsame, fun h => absurd hconstant h⟩
        rw [Notes.enter, if_pos hkind, hu]
        rfl
      · refine hlook notes ?_ (.refl _ _)
        rw [Notes.enter, if_neg hkind]
  | declarator span target init =>
      refine hlook notes ?_ (.refl _ _)
      have hrequire : notes.tracker.addRequire target init = notes.tracker := by
        apply Tracker.addRequire_eq_self
        intro required hrequired
        rw [bringsIn, hrequired] at hbrings
        exact hbrings
      rw [Notes.enter, hrequire]
  | plain form span slots rest =>
      cases form with
      | withStatement => exact ⟨.skip, notes, rfl, (by intro h; cases h), .refl _ _⟩
      | _ => exact hlook notes rfl (.refl _ _)
  | _ => exact hlook notes rfl (.refl _ _)

theorem leave_of_opensFrame (hopens : opensFrame node = true) {t : Tracker}
    (hframe : t.push.SameOutside notes.tracker) :
    (everywhere q called).after node place notes = (none, { notes with tracker := t }) := by
  simp only [Visitor.after, everywhere, visitor, Notes.leave, if_pos hopens,
    Tracker.pop_of_push hframe, Notes.settle]

theorem leave_of_no_frame (hopens : opensFrame node = false) :
    (everywhere q called).after node place notes = (none, notes) := by
  simp only [Visitor.after, everywhere, visitor, Notes.leave, hopens, Bool.false_eq_true, if_false]

/-- Whether a node or one of its ancestors is left out. -/
def LeftOut (q : Query) (ancestors : List Node) (node : Node) : Prop :=
  ∃ n ∈ node :: ancestors, alwaysVisited n = false ∧ q.touches n.span = false

theorem LeftOut.child {ancestors : List Node} (h : LeftOut q ancestors node) (c : Node) :
    LeftOut q (node :: ancestors) c := by
  obtain ⟨n, hn, hout⟩ := h
  exact ⟨n, List.mem_cons_of_mem c hn, hout⟩

/-- A key in what is left out is not under the cursor. -/
theorem LeftOut.touches_eq_false {modules : List String} {root key value : Node}
    {ancestors : List Node} (horderly : Orderly modules root)
    (hpath : Node.Lineage root ancestors (.pair .property key value))
    (h : LeftOut q ancestors (.pair .property key value)) : q.touches key.span = false := by
  obtain ⟨n, hn, halways, htouches⟩ := h
  obtain ⟨hstart, hstop⟩ := horderly.keys ancestors key value hpath n hn halways
  rw [← Bool.not_eq_true, Query.touches, Bool.and_eq_true, decide_eq_true_eq,
    decide_eq_true_eq] at htouches ⊢
  rintro ⟨hafter, hbefore⟩
  exact htouches ⟨Nat.le_trans (Document.localByte_mono hstart q.base) hafter,
    Nat.le_trans hbefore (Document.localByte_mono hstop q.base)⟩

/-- Nothing in what is left out brings in names. -/
theorem LeftOut.bringsIn_eq_false {modules : List String} {root : Node} {ancestors : List Node}
    (horderly : Orderly modules root) (hpath : Node.Lineage root ancestors node)
    (h : LeftOut q ancestors node) : bringsIn modules node = false := by
  rw [← Bool.not_eq_true]
  intro hbrings
  obtain ⟨n, hn, halways, -⟩ := h
  rcases List.mem_cons.1 hn with rfl | hn
  · unfold bringsIn at hbrings
    split at hbrings
    · cases halways
    · cases halways
    · cases hbrings
  · rw [horderly.aliases ancestors node hpath hbrings n hn] at halways
    cases halways

/-- Children that disturb nothing but a frame in which they may bind disturb
nothing else together. -/
theorem runAll_of_undisturbed {loose : Prop} {start m : Notes (Option Hover)}
    (hchild : ∀ c ∈ node.children, ∀ m, Undisturbed loose start m →
      ∃ next, (everywhere q called).visit c.2 (some node) place m = (none, next) ∧
        Undisturbed (Binds c.2) m next)
    (hbinds : ∀ c ∈ node.children, Binds c.2 → loose) (ignored : List ChildRef)
    (hm : Undisturbed loose start m) :
    ∃ next, Visitor.runAll ((everywhere q called).visitChild node place ignored) node.children m =
        (none, next) ∧ Undisturbed loose start next := by
  apply Visitor.runAll_of_none
  · intro c hc m hm
    by_cases hignored : ignored.any (·.covers c.1) = true
    · exact ⟨m, if_pos hignored, hm⟩
    · obtain ⟨next, hvisit, hnext⟩ := hchild c hc m hm
      refine ⟨next, ?_, hm.trans (hnext.mono (hbinds c hc))⟩
      rw [Visitor.visitChild, if_neg hignored, hvisit]
  · exact hm

/-- The reference walk comes out of what is left out as it went in. The
induction is on the node; the notes after each child are those before the first
one, but for constants in a frame that the node opened or stands in. -/
theorem visit_of_leftOut {modules : List String} {root : Node} (horderly : Orderly modules root)
    {ancestors : List Node} (hpath : Node.Lineage root ancestors node)
    (hout : LeftOut q ancestors node) (parent : Option Node) (place : Place)
    (hmodules : notes.tracker.modules = modules)
    (hframed : Binds node → notes.tracker.frames ≠ []) :
    ∃ next, (everywhere q false).visit node parent place notes = (none, next) ∧
      Undisturbed (Binds node) notes next := by
  induction node using Node.induction generalizing ancestors parent place notes with
  | step node ih =>
      have hlive : (everywhere q false).canceled notes = false := rfl
      let counted := notes.recounted (notes.visited + 1)
      by_cases hopens : opensFrame node = true
      · let opened : Notes (Option Hover) := { counted with tracker := notes.tracker.push }
        have hbefore : (everywhere q false).before node parent place notes =
            (.inr (place, []), opened) := by
          rw [before_everywhere, enterNode_of_opensFrame hopens]
          rfl
        have hchild : ∀ c ∈ node.children, ∀ m, Undisturbed True opened m →
            ∃ next, (everywhere q false).visit c.2 (some node) place m = (none, next) ∧
              Undisturbed (Binds c.2) m next := by
          intro c hc m hm
          exact ih c hc (hpath.child hc) (hout.child c.2) (some node) place
            (hm.outside.modules.trans hmodules)
            (fun _ => hm.outside.framed (List.cons_ne_nil _ _))
        obtain ⟨below, hbelow, hundisturbed⟩ :=
          runAll_of_undisturbed hchild (fun _ _ _ => trivial) [] (.refl True opened)
        refine ⟨{ below with tracker := notes.tracker }, ?_, hundisturbed.found,
          hundisturbed.failure, .refl _, fun _ => rfl⟩
        rw [Visitor.visit_of_inr hlive hbefore, Visitor.visitBelow_of_none hbelow,
          leave_of_opensFrame hopens hundisturbed.outside]
      · rw [Bool.not_eq_true] at hopens
        have hbrings : bringsIn counted.tracker.modules node = false :=
          hout.bringsIn_eq_false (hmodules ▸ horderly) hpath
        have hkey : ∀ key value, node = .pair .property key value →
            q.touches key.span = false := by
          rintro key value rfl
          exact hout.touches_eq_false horderly hpath
        obtain ⟨flow, entered, henter, hflow, hentered⟩ :=
          enterNode_quiet parent place hopens hbrings hkey fun hconstant =>
            hframed (.inl hconstant)
        have hundisturbed : Undisturbed (Binds node) notes entered :=
          (Undisturbed.recounted _ notes _).trans (hentered.mono .inl)
        have hbefore : (everywhere q false).before node parent place notes =
            (Visitor.absorb place [] flow, entered) := by
          rw [before_everywhere, henter]
        rcases Visitor.absorb_of_ne_exit hflow place [] with hskip | ⟨handed, ignored, hgoes⟩
        · rw [hskip] at hbefore
          exact ⟨entered, Visitor.visit_of_inl hlive hbefore, hundisturbed⟩
        · rw [hgoes] at hbefore
          have hbinds : ∀ c ∈ node.children, Binds c.2 → Binds node := by
            intro c hc h
            apply (horderly.binds_of_child hpath hc h).resolve_left
            rw [hopens]
            exact Bool.false_ne_true
          have hchild : ∀ c ∈ node.children, ∀ m, Undisturbed (Binds node) notes m →
              ∃ next, (everywhere q false).visit c.2 (some node) handed m = (none, next) ∧
                Undisturbed (Binds c.2) m next := by
            intro c hc m hm
            exact ih c hc (hpath.child hc) (hout.child c.2) (some node) handed
              (hm.outside.modules.trans hmodules)
              (fun h => hm.outside.framed (hframed (hbinds c hc h)))
          obtain ⟨below, hbelow, hbelowNotes⟩ :=
            runAll_of_undisturbed hchild hbinds ignored hundisturbed
          refine ⟨below, ?_, hbelowNotes⟩
          rw [Visitor.visit_of_inr hlive hbefore, Visitor.visitBelow_of_none hbelow,
            leave_of_no_frame hopens]

/-- Notes under the given modules that differ in the number of nodes alone. -/
def Alike (modules : List String) (m n : Notes (Option Hover)) : Prop :=
  m.tracker.modules = modules ∧ ∃ visited, n = m.recounted visited

/-- Where the walk with pruning looks at a node, the other does the same. -/
theorem before_alike {modules : List String} (called : Bool)
    (hkept : alwaysVisited node = true ∨ q.touches node.span = true) (parent : Option Node)
    (place : Place) {m n : Notes (Option Hover)} (hmn : Alike modules m n) :
    ((pruning q called).before node parent place m).1 =
        ((everywhere q called).before node parent place n).1 ∧
      Alike modules ((pruning q called).before node parent place m).2
        ((everywhere q called).before node parent place n).2 := by
  obtain ⟨hmodules, visited, rfl⟩ := hmn
  have hcounted : (m.recounted visited).recounted ((m.recounted visited).visited + 1) =
      (m.recounted (m.visited + 1)).recounted (visited + 1) := rfl
  have hstays := modules_enterNode q node parent place (m.recounted (m.visited + 1))
  rw [before_pruning_of_kept hkept, before_everywhere, before_everywhere, hcounted,
    enterNode_recounted q node parent place (m.recounted (m.visited + 1)) (visited + 1)]
  rcases henter : enterNode q node parent place (m.recounted (m.visited + 1)) with
    ⟨flow, entered⟩
  rw [henter] at hstays
  exact ⟨rfl, hstays.trans hmodules, visited + 1, rfl⟩

theorem after_alike {modules : List String} (node : Node) (place : Place)
    {m n : Notes (Option Hover)} (hmn : Alike modules m n) :
    ((pruning q called).after node place m).1 = ((everywhere q called).after node place n).1 ∧
      Alike modules ((pruning q called).after node place m).2
        ((everywhere q called).after node place n).2 := by
  obtain ⟨hmodules, visited, rfl⟩ := hmn
  have hstays := m.modules_leave (α := Place) node
  simp only [Visitor.after, pruning, everywhere, visitor, Notes.leave_recounted]
  rcases hleave : m.leave (α := Place) node with ⟨flow, left⟩
  rw [hleave] at hstays
  cases flow <;> exact ⟨rfl, hstays.trans hmodules, visited, rfl⟩

/-- Side by side the two walks end alike, with notes alike. -/
theorem visit_alike {modules : List String} {root : Node} (horderly : Orderly modules root)
    {ancestors : List Node} (hpath : Node.Lineage root ancestors node) (called : Bool)
    (parent : Option Node) (place : Place) {m n : Notes (Option Hover)} (hmn : Alike modules m n) :
    ((pruning q called).visit node parent place m).1 =
        ((everywhere q called).visit node parent place n).1 ∧
      Alike modules ((pruning q called).visit node parent place m).2
        ((everywhere q called).visit node parent place n).2 := by
  induction node using Node.induction generalizing ancestors parent place m n with
  | step node ih =>
      cases called with
      | true =>
          rw [Visitor.visit_of_canceled (v := pruning q true) rfl,
            Visitor.visit_of_canceled (v := everywhere q true) rfl]
          exact ⟨rfl, hmn⟩
      | false =>
          by_cases hkept : alwaysVisited node = true ∨ q.touches node.span = true
          · obtain ⟨hstop, hnotes⟩ := before_alike false hkept parent place hmn
            rcases hp : (pruning q false).before node parent place m with ⟨stop, m'⟩
            rcases he : (everywhere q false).before node parent place n with ⟨stop', n'⟩
            rw [hp, he] at hstop hnotes
            obtain rfl : stop = stop' := hstop
            cases stop with
            | inl halt =>
                rw [Visitor.visit_of_inl (v := pruning q false) rfl hp,
                  Visitor.visit_of_inl (v := everywhere q false) rfl he]
                exact ⟨rfl, hnotes⟩
            | inr handed =>
                rw [Visitor.visit_of_inr (v := pruning q false) rfl hp,
                  Visitor.visit_of_inr (v := everywhere q false) rfl he]
                exact Visitor.visitBelow_related
                  (fun c hc _ _ hmn => ih c hc (hpath.child hc) (some node) handed.1 hmn)
                  (fun _ _ hmn => after_alike node handed.1 hmn) hnotes
          · obtain ⟨halways, htouches⟩ := not_or.1 hkept
            rw [Bool.not_eq_true] at halways htouches
            have hbinds : ¬Binds node := fun h => by
              rw [alwaysVisited_of_binds h] at halways
              cases halways
            obtain ⟨hmodules, visited, rfl⟩ := hmn
            have hcounted : (m.recounted visited).tracker.modules = modules := hmodules
            obtain ⟨next, hvisit, hnext⟩ := visit_of_leftOut horderly hpath
              ⟨node, List.mem_cons_self, halways, htouches⟩ parent place hcounted
              fun h => absurd h hbinds
            rw [Visitor.visit_of_inl (v := pruning q false) rfl
              (before_pruning_of_leftOut halways htouches), hvisit]
            exact ⟨rfl, hmodules, next.visited, hnext.eq_recounted hbinds⟩

end Hover

/-- Leaving out what the cursor does not touch changes no answer, on a tree
whose spans nest around keys, whose constants stand directly in blocks and
whose imports stand at the top. The request may be called off before it
starts. -/
theorem hover?_eq_hoverEverywhere? (document : Document) {tree : Node} {tracker : Tracker}
    (horderly : Orderly tracker.modules tree) (position : Position) (normalize : Normalization)
    (called : Bool) :
    hover? document tree tracker position normalize (fun _ => called) =
      hoverEverywhere? document tree tracker position normalize fun _ => called := by
  let q : Hover.Query :=
    ⟨document, normalize, spanBase document tree, document.byteOfPosition position⟩
  let start : Notes (Option Hover) := .start tracker none
  have hstart : Hover.Alike tracker.modules start start := ⟨rfl, start.visited, rfl⟩
  obtain ⟨hend, -, visited, hnotes⟩ :=
    Hover.visit_alike (q := q) horderly .root called none Hover.Place.outside hstart
  rcases hpruning : (Hover.pruning q called).visit tree none Hover.Place.outside start with
    ⟨halt, notes⟩
  rcases heverywhere : (Hover.everywhere q called).visit tree none Hover.Place.outside start with
    ⟨halt', notes'⟩
  rw [hpruning, heverywhere] at hend hnotes
  obtain rfl : halt = halt' := hend
  obtain rfl : notes' = notes.recounted visited := hnotes
  have hhover : hover? document tree tracker position normalize (fun _ => called) =
      (notes.finish (.ofHalt halt)).map Option.join := by
    show (let (outcome, notes) := (Hover.pruning q called).walk tree Hover.Place.outside start
      (notes.finish outcome).map Option.join) = _
    rw [Visitor.walk, hpruning]
  have hreference : hoverEverywhere? document tree tracker position normalize (fun _ => called) =
      ((notes.recounted visited).finish (.ofHalt halt)).map Option.join := by
    show (let (outcome, notes) := (Hover.everywhere q called).walk tree Hover.Place.outside start
      (notes.finish outcome).map Option.join) = _
    rw [Visitor.walk, heverywhere]
  rw [hhover, hreference]
  rfl

/-- The tree of `;{const a=null}stylex.create({a:{color:"red"}})`. -/
def blockThenKey : Node :=
  .program .script ⟨0, 47⟩
    [.block ⟨1, 15⟩
      [.declaration ⟨2, 14⟩ "const"
        [.declarator ⟨8, 14⟩ (.identifier ⟨8, 9⟩ "a" none) (some (.null ⟨10, 14⟩))]],
      .call ⟨15, 47⟩
        (.member ⟨15, 28⟩ (.identifier ⟨15, 21⟩ "stylex" none) (.identifier ⟨22, 28⟩ "create" none))
        [⟨none, .object ⟨29, 46⟩
          [.pair .property (.identifier ⟨30, 31⟩ "a" none)
            (.object ⟨32, 45⟩
              [.pair .property (.identifier ⟨33, 38⟩ "color" none) (.string ⟨39, 44⟩ "red")])]⟩]
        none]

theorem orderly_blockThenKey : Orderly defaultModules blockThenKey := by
  let constant : Node := .declarator ⟨8, 14⟩ (.identifier ⟨8, 9⟩ "a" none) (some (.null ⟨10, 14⟩))
  let declaration : Node := .declaration ⟨2, 14⟩ "const" [constant]
  let block : Node := .block ⟨1, 15⟩ [declaration]
  let color : Node := .pair .property (.identifier ⟨33, 38⟩ "color" none) (.string ⟨39, 44⟩ "red")
  let inner : Node := .object ⟨32, 45⟩ [color]
  let rule : Node := .pair .property (.identifier ⟨30, 31⟩ "a" none) inner
  let outer : Node := .object ⟨29, 46⟩ [rule]
  let callee : Node :=
    .member ⟨15, 28⟩ (.identifier ⟨15, 21⟩ "stylex" none) (.identifier ⟨22, 28⟩ "create" none)
  let call : Node := .call ⟨15, 47⟩ callee [⟨none, outer⟩] none
  let nodes : List (List Node × Node) := [([], blockThenKey), ([blockThenKey], block),
    ([block, blockThenKey], declaration), ([declaration, block, blockThenKey], constant),
    ([constant, declaration, block, blockThenKey], .null ⟨10, 14⟩),
    ([constant, declaration, block, blockThenKey], .identifier ⟨8, 9⟩ "a" none),
    ([blockThenKey], call), ([call, blockThenKey], callee),
    ([callee, call, blockThenKey], .identifier ⟨15, 21⟩ "stylex" none),
    ([callee, call, blockThenKey], .identifier ⟨22, 28⟩ "create" none),
    ([call, blockThenKey], outer), ([outer, call, blockThenKey], rule),
    ([rule, outer, call, blockThenKey], .identifier ⟨30, 31⟩ "a" none),
    ([rule, outer, call, blockThenKey], inner),
    ([inner, rule, outer, call, blockThenKey], color),
    ([color, inner, rule, outer, call, blockThenKey], .identifier ⟨33, 38⟩ "color" none),
    ([color, inner, rule, outer, call, blockThenKey], .string ⟨39, 44⟩ "red")]
  have hnodes : ∀ ancestors n, Node.Lineage blockThenKey ancestors n → (ancestors, n) ∈ nodes := by
    intro ancestors n h
    refine h.mem_of_closed List.mem_cons_self ?_
    simp only [nodes, blockThenKey, block, declaration, constant, call, callee, outer, rule, inner,
      color, Node.children, Node.listChildren, Node.argumentChildren, Node.itemsFrom,
      Node.oneChild, Node.optionalChild, List.map_cons, List.map_nil, List.forall_mem_cons,
      List.cons_append, List.nil_append]
    simp
  constructor
  · intro ancestors key value h
    have hmem := hnodes _ _ h
    simp only [nodes, blockThenKey, block, declaration, constant, call, callee, outer, rule, inner,
      color, List.mem_cons, Prod.mk.injEq, reduceCtorEq, and_false, false_or, or_false,
      Node.pair.injEq, true_and, List.not_mem_nil] at hmem
    have hcovers : ∀ {n : Node} {key : Span}, n.span.start ≤ key.start ∧ key.stop ≤ n.span.stop →
        alwaysVisited n = false → n.span.Covers key := fun hspan _ => hspan
    rcases hmem with ⟨rfl, rfl, rfl⟩ | ⟨rfl, rfl, rfl⟩ <;> simp only [List.forall_mem_cons]
    · exact ⟨hcovers (by decide), hcovers (by decide), hcovers (by decide), hcovers (by decide),
        List.forall_mem_nil _⟩
    · exact ⟨hcovers (by decide), hcovers (by decide), hcovers (by decide), hcovers (by decide),
        hcovers (by decide), hcovers (by decide), List.forall_mem_nil _⟩
  · have hconstants : ∀ x ∈ nodes, isConstant x.2 = true → directlyFramed x.1 = true := by decide
    exact fun ancestors n h => hconstants _ (hnodes ancestors n h)
  · have hbrings : ∀ x ∈ nodes, bringsIn defaultModules x.2 = false := by decide
    intro ancestors n h hbringsIn
    cases hbringsIn.symm.trans (hbrings _ (hnodes ancestors n h))

/-- With the cursor on the key, the block with its constant is left out. -/
theorem hover?_eq_hoverEverywhere?_key :
    let document : Document := .new "a.js" "javascript" 1
      ";\x7bconst a=null\x7dstylex.create(\x7ba:\x7bcolor:\"red\"\x7d\x7d)"
    let normalizer : Normalizer := ⟨false⟩
    Orderly defaultModules blockThenKey ∧
      (hover? document blockThenKey .new ⟨0, 34⟩ normalizer .never).toOption.join.map (·.range) =
        some ⟨⟨0, 33⟩, ⟨0, 38⟩⟩ ∧
      hover? document blockThenKey .new ⟨0, 34⟩ normalizer .never =
        hoverEverywhere? document blockThenKey .new ⟨0, 34⟩ normalizer .never := by
  intro document normalizer
  exact ⟨orderly_blockThenKey, by decide +kernel,
    hover?_eq_hoverEverywhere? _ orderly_blockThenKey _ _ false⟩

end Assist

end StyleSense
