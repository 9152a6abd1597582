/-
# What the frames hold

When a node is entered, there is one frame for each module, script and block
around it, and the frame holds the constants folded so far whose declarations
have that node as the innermost such node around them (`keepsBooks_visitor`). So the
stack of frames, which comes and goes with the walk, can be read off the log of
the walk and the places in the tree.

The proof follows a visit: what its parts add to a frame is put together by
`Books.append`. The frame of a node is on the stack only while its children are
visited, and they add to it what they would otherwise add to the frame outside.
-/

import StyleSense.Proofs.Assist.Frames
import StyleSense.Proofs.Dictionary
import StyleSense.Proofs.Tree.Nesting

namespace StyleSense.Assist

variable {t u : Tracker} {x : String} {value : Value}

/-- The declarators of a declaration of constants. -/
def constants : Node → List Node
  | .declaration _ kind declarations => if kind = "const" then declarations else []
  | _ => []

theorem constants_of_opensFrame {node : Node} (h : opensFrame node = true) :
    constants node = [] := by
  cases node with
  | program => rfl
  | block => rfl
  | _ => cases h

/-- The constant of a declarator: a plain name and what its initializer folds
to. -/
def constant? (t : Tracker) : Node → Option (String × Value)
  | .declarator _ target (some init) =>
      match target.identifierName?, (t.evaluate init).value? with
      | some name, some value => some (name, value)
      | _, _ => none
  | _ => none

theorem bindConstants_cons (t : Tracker) (declarator : Node) (rest : List Node) :
    bindConstants t (declarator :: rest) =
      match constant? t declarator with
      | some (name, value) => t.bind name value >>= fun u => bindConstants u rest
      | none => bindConstants t rest := by
  fun_cases constant? t declarator with
  | case1 span target init name value hvalue hname =>
      rw [bindConstants, hname, hvalue]
  | case2 span target init hnone =>
      rw [bindConstants]
      split
      · next name value hname hvalue => exact absurd hvalue (hnone name value hname)
      · rfl
  | case3 =>
      rw [bindConstants]
      assumption

/-- The constants of some declarators, each folded after those before it. -/
def folded (t : Tracker) : List Node → List (String × Value)
  | [] => []
  | declarator :: rest =>
      match constant? t declarator with
      | some (name, value) =>
          (name, value) ::
            match t.bind name value with
            | .ok u => folded u rest
            | .error _ => []
      | none => folded t rest

/-- One of the declarators folds to this constant, after those before it. -/
def Folds (t : Tracker) (declarators : List Node) (x : String) (value : Value) : Prop :=
  ∃ before declarator after u, declarators = before ++ declarator :: after ∧
    bindConstants t before = .ok u ∧ constant? u declarator = some (x, value)

theorem folds_cons {declarator : Node} {rest : List Node} :
    Folds t (declarator :: rest) x value ↔
      constant? t declarator = some (x, value) ∨
        ∃ u, bindConstants t [declarator] = .ok u ∧ Folds u rest x value := by
  have hsplit : ∀ before u, bindConstants t (declarator :: before) = .ok u ↔
      ∃ middle, bindConstants t [declarator] = .ok middle ∧
        bindConstants middle before = .ok u := by
    intro before u
    rw [bindConstants_cons, bindConstants_cons]
    split
    · next name value _ =>
        cases t.bind name value with
        | error error => exact ⟨nofun, nofun⟩
        | ok bound => exact ⟨fun h => ⟨bound, rfl, h⟩, fun ⟨_, heq, h⟩ => by cases heq; exact h⟩
    · exact ⟨fun h => ⟨t, rfl, h⟩, fun ⟨_, heq, h⟩ => by cases heq; exact h⟩
  constructor
  · rintro ⟨before, folding, after, u, hlist, hu, hfolds⟩
    cases before with
    | nil =>
        obtain ⟨rfl, rfl⟩ := List.cons.inj hlist
        cases hu
        exact .inl hfolds
    | cons first before =>
        obtain ⟨rfl, rfl⟩ := List.cons.inj hlist
        obtain ⟨middle, hfirst, hbefore⟩ := (hsplit before u).1 hu
        exact .inr ⟨middle, hfirst, before, folding, after, u, rfl, hbefore, hfolds⟩
  · rintro (hfolds | ⟨middle, hfirst, before, folding, after, u, rfl, hbefore, hfolds⟩)
    · exact ⟨[], declarator, rest, t, rfl, rfl, hfolds⟩
    · exact ⟨declarator :: before, folding, after, u, rfl,
        (hsplit before u).2 ⟨middle, hfirst, hbefore⟩, hfolds⟩

theorem mem_folded {declarators : List Node} :
    (x, value) ∈ folded t declarators ↔ Folds t declarators x value := by
  induction declarators generalizing t with
  | nil =>
      refine ⟨fun h => absurd h List.not_mem_nil, ?_⟩
      rintro ⟨before, declarator, after, u, hlist, -⟩
      exact absurd hlist.symm (by simp)
  | cons declarator rest ih =>
      rw [folds_cons, folded, bindConstants_cons]
      rcases constant? t declarator with - | ⟨name, first⟩
      · simp only [reduceCtorEq, false_or, ih]
        exact ⟨fun h => ⟨t, rfl, h⟩, fun ⟨_, heq, h⟩ => by cases heq; exact h⟩
      · simp only [List.mem_cons, Option.some.injEq, eq_comm (a := (x, value))]
        refine or_congr_right ?_
        cases t.bind name first with
        | error error => exact ⟨fun h => absurd h List.not_mem_nil, nofun⟩
        | ok bound =>
            simp only [ih]
            exact ⟨fun h => ⟨bound, rfl, h⟩, fun ⟨_, heq, h⟩ => by cases heq; exact h⟩

/-- The frames after some constants went into the innermost one. -/
def record (entries : List (String × Value)) :
    List (Dictionary Value) → List (Dictionary Value)
  | [] => []
  | frame :: outer => Dictionary.putAll entries frame :: outer

theorem record_nil (frames : List (Dictionary Value)) : record [] frames = frames := by
  cases frames <;> rfl

theorem record_append (entries more : List (String × Value)) (frames : List (Dictionary Value)) :
    record (entries ++ more) frames = record more (record entries frames) := by
  cases frames with
  | nil => rfl
  | cons frame outer => rw [record, record, record, Dictionary.putAll_append]

theorem frames_bind {name : String} (h : t.bind name value = .ok u) :
    u.frames = record [(name, value)] t.frames := by
  unfold Tracker.bind at h
  split at h
  · cases h
  · rename_i hframes
    cases h
    rw [hframes]
    rfl

theorem frames_bindConstants {declarators : List Node} (h : bindConstants t declarators = .ok u) :
    u.frames = record (folded t declarators) t.frames := by
  induction declarators generalizing t with
  | nil =>
      cases h
      exact (record_nil _).symm
  | cons declarator rest ih =>
      rw [bindConstants_cons] at h
      rw [folded]
      split at h
      · next name first _ =>
          cases hbound : t.bind name first with
          | error error =>
              rw [hbound] at h
              cases h
          | ok bound =>
              rw [hbound] at h
              rw [ih h, frames_bind hbound, ← record_append]
              rfl
      · exact ih h

/-- What was folded at places of a tree, in the order of a walk. -/
abbrev Ledger := List (Path × List (String × Value))

/-- What was folded at the places whose first enclosing place is `home`. -/
def heldBy (encl : Path → List Path) (home : Option Path) (log : Ledger) :
    List (String × Value) :=
  log.flatMap fun entry => if (encl entry.1).head? = home then entry.2 else []

/-- The frames at a place, over those that were there at first: one for each
enclosing place, with what was folded right inside it. -/
def held (encl : Path → List Path) (path : Path) (log : Ledger)
    (base : List (Dictionary Value)) : List (Dictionary Value) :=
  (encl path).map (fun place => Dictionary.putAll (heldBy encl (some place) log) []) ++
    record (heldBy encl none log) base

theorem heldBy_append (encl : Path → List Path) (home : Option Path) (log more : Ledger) :
    heldBy encl home (log ++ more) = heldBy encl home log ++ heldBy encl home more :=
  List.flatMap_append

theorem heldBy_eq_nil {encl : Path → List Path} {home : Option Path} {log : Ledger}
    (h : ∀ entry ∈ log, entry.2 ≠ [] → (encl entry.1).head? ≠ home) :
    heldBy encl home log = [] := by
  rw [heldBy, List.flatMap_eq_nil_iff]
  intro entry hentry
  split
  · next heq =>
      by_contra hne
      exact h entry hentry hne heq
  · rfl

theorem held_append {encl : Path → List Path} {path : Path} {log more : Ledger}
    {base : List (Dictionary Value)}
    (h : ∀ place ∈ encl path, heldBy encl (some place) log = []) :
    held encl path (log ++ more) base =
      held encl path more (record (heldBy encl none log) base) := by
  rw [held, held, heldBy_append, record_append]
  congr 1
  exact List.map_congr_left fun place hplace => by
    rw [heldBy_append, h place hplace, List.nil_append]

theorem mem_heldBy {encl : Path → List Path} {home : Option Path} {log : Ledger} :
    (x, value) ∈ heldBy encl home log ↔
      ∃ entry ∈ log, (encl entry.1).head? = home ∧ (x, value) ∈ entry.2 := by
  simp only [heldBy, List.mem_flatMap, List.mem_ite_nil_right]

/-- What is folded at a place goes into the frame of its first enclosing place. -/
theorem record_held {encl : Path → List Path} {path : Path} (h : (encl path).Nodup)
    (log : Ledger) (entries : List (String × Value)) :
    record entries (held encl path log []) = held encl path (log ++ [(path, entries)]) [] := by
  have hheld : ∀ home, heldBy encl home (log ++ [(path, entries)]) =
      heldBy encl home log ++ if (encl path).head? = home then entries else [] := by
    intro home
    rw [heldBy_append]
    exact congrArg _ (List.flatMap_singleton _ _)
  cases hencl : encl path with
  | nil => rw [held, held, hencl]; rfl
  | cons place outer =>
      rw [hencl, List.nodup_cons] at h
      have hfirst : heldBy encl (some place) (log ++ [(path, entries)]) =
          heldBy encl (some place) log ++ entries := by
        rw [hheld, hencl]
        exact congrArg _ (if_pos rfl)
      have hothers : ∀ other ∈ outer, heldBy encl (some other) (log ++ [(path, entries)]) =
          heldBy encl (some other) log := by
        intro other hother
        have hne : (place :: outer).head? ≠ some other := fun heq =>
          h.1 (Option.some.inj heq ▸ hother)
        rw [hheld, hencl, if_neg hne, List.append_nil]
      rw [held, held, hencl, List.map_cons, List.map_cons, hfirst, Dictionary.putAll_append,
        List.map_congr_left fun other hother => by rw [← hothers other hother]]
      rfl

/-- The ledger of a child as its parent sees it. -/
def Ledger.below (index : Nat) (log : Ledger) : Ledger :=
  log.map fun entry => (index :: entry.1, entry.2)

section

variable {p : Node → Bool} {n : Node} {i : Nat} {c : ChildRef × Node}

theorem heldBy_below (h : n.children[i]? = some c) (home : Option Path) (log : Ledger) :
    heldBy (n.enclosingBelow p) (home.map (i :: ·)) (log.below i) =
      heldBy (c.2.enclosing p) home log := by
  rw [heldBy, Ledger.below, List.flatMap_map, heldBy]
  refine List.flatMap_congr fun entry _ => if_congr ?_ rfl rfl
  rw [Node.enclosingBelow_cons h, List.head?_map]
  exact (Option.map_injective (List.cons_injective)).eq_iff

theorem held_below (h : n.children[i]? = some c) (path : Path) (log : Ledger)
    (base : List (Dictionary Value)) :
    held (n.enclosingBelow p) (i :: path) (log.below i) base =
      held (c.2.enclosing p) path log base := by
  rw [held, held, Node.enclosingBelow_cons h, List.map_map, ← heldBy_below h none]
  congr 1
  exact List.map_congr_left fun place _ => by
    rw [Function.comp_apply, ← heldBy_below h (some place)]
    rfl

/-- The node at the top encloses all that is below it, after the others. -/
theorem head?_enclosing (hp : p n = true) (i : Nat) (path : Path) :
    (n.enclosing p (i :: path)).head? =
      some ((n.enclosingBelow p (i :: path)).head?.getD []) := by
  rw [Node.enclosing_of_pos hp]
  cases n.enclosingBelow p (i :: path) <;> rfl

theorem ne_nil_of_head?_enclosingBelow {path place : Path}
    (h : (n.enclosingBelow p path).head? = some place) : place ≠ [] := by
  obtain ⟨i, above, below, -, rfl⟩ :=
    Node.exists_of_mem_enclosingBelow (List.mem_of_head? h)
  exact List.cons_ne_nil i below

/-- Nothing that is folded below a node that encloses it goes outside. -/
theorem heldBy_none (hp : p n = true) {log : Ledger}
    (hlog : ∀ entry ∈ log, entry.2 ≠ [] → entry.1 ≠ []) :
    heldBy (n.enclosing p) none log = [] := by
  refine heldBy_eq_nil fun entry hentry hne heq => ?_
  obtain ⟨i, place, hplace⟩ := List.exists_cons_of_ne_nil (hlog entry hentry hne)
  rw [hplace, head?_enclosing hp] at heq
  cases heq

/-- It goes into a frame of the node's own instead. -/
theorem held_framed (hp : p n = true) {path : Path} (hpath : path ≠ []) {log : Ledger}
    (hlog : ∀ entry ∈ log, entry.2 ≠ [] → entry.1 ≠ []) (base : List (Dictionary Value)) :
    held (n.enclosing p) path log base = held (n.enclosingBelow p) path log ([] :: base) := by
  obtain ⟨i, path, rfl⟩ := List.exists_cons_of_ne_nil hpath
  have hself : heldBy (n.enclosing p) (some []) log = heldBy (n.enclosingBelow p) none log := by
    refine List.flatMap_congr fun entry hentry => ?_
    by_cases hne : entry.2 = []
    · rw [hne, ite_self, ite_self]
    · obtain ⟨j, place, hplace⟩ := List.exists_cons_of_ne_nil (hlog entry hentry hne)
      refine if_congr ?_ rfl rfl
      rw [hplace, head?_enclosing hp]
      cases hhead : (n.enclosingBelow p (j :: place)).head? with
      | none => simp
      | some first => simpa using ne_nil_of_head?_enclosingBelow hhead
  have hbelow : ∀ place ∈ n.enclosingBelow p (i :: path),
      heldBy (n.enclosing p) (some place) log = heldBy (n.enclosingBelow p) (some place) log := by
    intro place hplace
    obtain ⟨j, above, below, -, rfl⟩ := Node.exists_of_mem_enclosingBelow hplace
    refine List.flatMap_congr fun entry hentry => if_congr ?_ rfl rfl
    cases hentry : entry.1 with
    | nil => exact Iff.rfl
    | cons k place =>
        rw [head?_enclosing hp]
        cases (n.enclosingBelow p (k :: place)).head? <;> simp
  rw [held, held, Node.enclosing_of_pos hp, heldBy_none hp hlog, record_nil, List.map_append,
    List.map_singleton, hself, List.append_assoc]
  congr 1
  exact List.map_congr_left fun place hplace => by rw [hbelow place hplace]

end

section

variable {α β : Type} {token : Token} {prunes : Node → Bool}
  {look : Node → Option Node → α → Notes β → Flow α × Notes β} {node : Node}

/-- Taking note of a node without a frame binds its constants, if any. -/
theorem Notes.frames_enter (h : opensFrame node = false) (notes : Notes β) :
    (∃ next, notes.enter (α := α) node = (some .exit, next)) ∨
      ∃ u, bindConstants notes.tracker (constants node) = .ok u ∧
        (notes.enter (α := α) node).2.tracker.frames = u.frames := by
  cases node with
  | program => cases h
  | block => cases h
  | declaration span kind declarations =>
      rw [enter, constants]
      split
      · cases hbound : bindConstants notes.tracker declarations with
        | ok u => exact .inr ⟨u, rfl, rfl⟩
        | error error => exact .inl ⟨_, rfl⟩
      · exact .inr ⟨notes.tracker, rfl, rfl⟩
  | declarator span target init =>
      exact .inr ⟨notes.tracker, rfl, (Tracker.sameConstants_addRequire ..).frames⟩
  | importFrom span specifiers source asserts =>
      exact .inr ⟨notes.tracker, rfl, (Tracker.sameConstants_addImport ..).frames⟩
  | plain form span slots rest => cases form <;> exact .inr ⟨notes.tracker, rfl, rfl⟩
  | _ => exact .inr ⟨notes.tracker, rfl, rfl⟩

variable (token prunes) in
/-- The hook before the children enters a frame. -/
theorem enter_of_opensFrame (hlook : Observes look) (h : opensFrame node = true)
    (parent : Option Node) (place : α) (notes : Notes β) :
    ((visitor token prunes look).enter node parent place notes).1 = .continue ∧
      ((visitor token prunes look).enter node parent place notes).2.tracker.frames =
        [] :: notes.tracker.frames := by
  simp only [visitor, Notes.enter_of_opensFrame h]
  exact ⟨hlook.frame node parent place _ h,
    congrArg Tracker.frames (hlook.tracker node parent place _)⟩

variable (token prunes) in
/-- The hook before the children records the constants that the node declares. -/
theorem frames_enter (hlook : Observes look) (h : opensFrame node = false)
    {parent : Option Node} {place : α} {notes : Notes β}
    (hstays : ((visitor token prunes look).enter node parent place notes).1 ≠ .exit) :
    ((visitor token prunes look).enter node parent place notes).2.tracker.frames =
      record (folded notes.tracker (constants node)) notes.tracker.frames := by
  have hframes := Notes.frames_enter (α := α) h notes
  rcases henter : notes.enter (α := α) node with ⟨- | answer, next⟩
  · rw [henter] at hframes
    obtain ⟨u, hu, hnext⟩ := hframes.resolve_left nofun
    simp only [visitor, henter]
    rw [hlook.tracker, ← frames_bindConstants hu]
    exact hnext
  · rw [henter] at hframes
    simp only [visitor, henter] at hstays ⊢
    obtain ⟨u, hu, hnext⟩ := hframes.resolve_left (by
      rintro ⟨_, heq⟩
      cases heq
      exact hstays rfl)
    rw [← frames_bindConstants hu]
    exact hnext

variable (token prunes look) in
/-- The hook after the children leaves the frame of the node. -/
theorem frames_leave (node : Node) (place : α) (notes : Notes β) :
    ((visitor token prunes look).leave node place notes).2.tracker.frames =
      if opensFrame node then notes.tracker.frames.tail else notes.tracker.frames := by
  simp only [visitor, Notes.leave]
  split
  · unfold Tracker.pop
    cases hframes : notes.tracker.frames with
    | nil => exact hframes
    | cons frame outer => rfl
  · rfl

/-- What a step folds, and where. -/
def learned (s : Visitor.Step (Notes β) α) : Path × List (String × Value) :=
  (s.path, if s.hook = .enter then folded s.memory.tracker (constants s.node) else [])

theorem learned_below (index : Nat) (steps : List (Visitor.Step (Notes β) α)) :
    (steps.map (·.below index)).map learned = Ledger.below index (steps.map learned) := by
  rw [List.map_map, Ledger.below, List.map_map]
  rfl

/-- The frames along a run that starts with `base` and ends with `frames`: they
are those that its steps so far account for. -/
structure Books (encl : Path → List Path) (base : List (Dictionary Value)) (halt : Option Halt)
    (steps : List (Visitor.Step (Notes β) α)) (frames : List (Dictionary Value)) : Prop where
  entered : ∀ earlier s later, steps = earlier ++ s :: later → s.hook = .enter →
    s.memory.tracker.frames = held encl s.path (earlier.map learned) base
  left : halt = none → frames = record (heldBy encl none (steps.map learned)) base

namespace Books

variable {encl : Path → List Path} {base middle frames : List (Dictionary Value)}
  {halt : Option Halt} {steps a b : List (Visitor.Step (Notes β) α)}

theorem nil (encl : Path → List Path) (base : List (Dictionary Value)) (halt : Option Halt) :
    Books encl base halt ([] : List (Visitor.Step (Notes β) α)) base :=
  ⟨by simp, fun _ => (record_nil base).symm⟩

/-- A run and what comes after it, where the first part folds nothing right
inside what encloses the second. -/
theorem append (ha : Books encl base none a middle) (hb : Books encl middle halt b frames)
    (hapart : ∀ s ∈ b, ∀ place ∈ encl s.path, heldBy encl (some place) (a.map learned) = []) :
    Books encl base halt (a ++ b) frames where
  entered earlier s later heq hs := by
    have hlater : ∀ more, b = more ++ s :: later →
        s.memory.tracker.frames = held encl s.path ((a ++ more).map learned) base := by
      rintro more rfl
      rw [List.map_append, held_append (hapart s (by simp)), ← ha.left rfl]
      exact hb.entered more s later rfl hs
    rcases List.append_eq_append_iff.1 heq with ⟨more, rfl, hmore⟩ | ⟨more, hmore, hrest⟩
    · exact hlater more hmore
    · cases more with
      | nil =>
          rw [List.append_nil] at hmore
          have := hlater [] hrest.symm
          rwa [List.append_nil, hmore] at this
      | cons t more =>
          obtain ⟨rfl, -⟩ := List.cons.inj hrest
          exact ha.entered earlier s more hmore hs
  left hnone := by
    rw [hb.left hnone, ha.left rfl, List.map_append, heldBy_append, record_append]

theorem below {n : Node} {i : Nat} {c : ChildRef × Node} (hc : n.children[i]? = some c)
    (h : Books (c.2.enclosing opensFrame) base halt steps frames) :
    Books (n.enclosingBelow opensFrame) base halt (steps.map (·.below i)) frames where
  entered earlier s later heq hs := by
    obtain ⟨first, rest, rfl, rfl, hrest⟩ := List.map_eq_append_iff.1 heq
    obtain ⟨t, others, rfl, rfl, rfl⟩ := List.map_eq_cons_iff.1 hrest
    rw [learned_below]
    exact (h.entered first t others rfl hs).trans (held_below hc t.path _ base).symm
  left hnone := by
    rw [h.left hnone, learned_below, ← heldBy_below hc none]
    rfl

/-- A single call on the node itself. -/
theorem single (hencl : encl [] = []) {s : Visitor.Step (Notes β) α} (hpath : s.path = [])
    (hframes : halt = none → frames = record (learned s).2 s.memory.tracker.frames) :
    Books encl s.memory.tracker.frames halt [s] frames where
  entered earlier t later heq _ := by
    obtain ⟨rfl, hrest⟩ := (List.append_eq_singleton_iff.1 heq.symm).resolve_right (by simp)
    obtain ⟨rfl, rfl⟩ := List.cons.inj hrest
    rw [hpath, held, hencl]
    exact (record_nil _).symm
  left hnone := by
    rw [hframes hnone, heldBy, List.map_singleton, List.flatMap_singleton,
      show (learned s).1 = [] from hpath, hencl]
    rfl

/-- How a run that halts leaves the frames does not matter. -/
theorem congr (h : Books encl base halt steps middle) (hframes : halt = none → frames = middle) :
    Books encl base halt steps frames :=
  ⟨h.entered, fun hnone => (hframes hnone).trans (h.left hnone)⟩

/-- The books of a node with a frame, from those of the run inside its frame. -/
theorem framed {n : Node} (hopens : opensFrame n = true)
    {opening rest : List (Visitor.Step (Notes β) α)}
    (hopening : ∀ s ∈ opening, s.path = [] ∧ (learned s).2 = [] ∧
      (s.hook = .enter → s.memory.tracker.frames = base))
    (hrest : Books (n.enclosingBelow opensFrame) ([] :: base) halt rest frames)
    (hbelow : ∀ s ∈ rest, s.hook = .enter → s.path ≠ []) :
    Books (n.enclosing opensFrame) base halt (opening ++ rest) frames.tail := by
  have hsilent : ∀ (encl : Path → List Path) home,
      ∀ part ⊆ opening, heldBy encl home (part.map learned) = [] := by
    intro encl home part hpart
    refine heldBy_eq_nil fun entry hentry hne => ?_
    obtain ⟨s, hs, rfl⟩ := List.mem_map.1 hentry
    exact absurd (hopening s (hpart hs)).2.1 hne
  have hlog : ∀ more ⊆ rest, ∀ entry ∈ (opening ++ more).map learned,
      entry.2 ≠ [] → entry.1 ≠ [] := by
    intro more hmore entry hentry hne
    obtain ⟨s, hs, rfl⟩ := List.mem_map.1 hentry
    rcases List.mem_append.1 hs with hs | hs
    · exact absurd (hopening s hs).2.1 hne
    · refine hbelow s (hmore hs) ?_
      by_contra hhook
      exact hne (if_neg hhook)
  constructor
  · intro earlier s later heq hs
    have hlater : ∀ more, rest = more ++ s :: later →
        s.memory.tracker.frames =
          held (n.enclosing opensFrame) s.path ((opening ++ more).map learned) base := by
      rintro more rfl
      rw [held_framed hopens (hbelow s (by simp) hs) (hlog more (List.subset_append_left _ _)),
        List.map_append, held_append fun place _ => hsilent _ _ opening (List.Subset.refl _),
        hsilent _ _ opening (List.Subset.refl _), record_nil]
      exact hrest.entered more s later rfl hs
    rcases List.append_eq_append_iff.1 heq with ⟨more, rfl, hmore⟩ | ⟨more, rfl, hlist⟩
    · exact hlater more hmore
    · cases more with
      | nil =>
          have := hlater [] hlist.symm
          rwa [List.append_nil, List.append_nil] at this
      | cons t more =>
          obtain ⟨rfl, -⟩ := List.cons.inj hlist
          obtain ⟨hpath, -, hbase⟩ := hopening s (by simp)
          rw [hbase hs, hpath, held, hsilent _ _ earlier (List.subset_append_left _ _), record_nil]
          rfl
  · intro hnone
    rw [heldBy_none hopens (hlog rest (List.Subset.refl _)), record_nil, hrest.left hnone]
    rfl

end Books

/-- The frames along the visit of a node are those that its steps account for. -/
def KeepsBooks (v : Visitor (Notes β) α) (node : Node) (parent : Option Node) (place : α)
    (notes : Notes β) : Prop :=
  Books (node.enclosing opensFrame) notes.tracker.frames (v.visit node parent place notes).1
    (v.steps node parent place notes) (v.visit node parent place notes).2.tracker.frames

section

variable {v : Visitor (Notes β) α} {place : α} {ignored : List ChildRef}

theorem path_of_mem_childSteps {x : (ChildRef × Node) × Nat} {notes : Notes β}
    {s : Visitor.Step (Notes β) α} (h : s ∈ v.childSteps node place ignored x notes) :
    ∃ path, s.path = x.2 :: path := by
  unfold Visitor.childSteps at h
  split at h
  · exact absurd h List.not_mem_nil
  · obtain ⟨t, -, rfl⟩ := List.mem_map.1 h
    exact ⟨t.path, rfl⟩

theorem path_of_mem_childrenSteps {xs : List ((ChildRef × Node) × Nat)} {notes : Notes β}
    {s : Visitor.Step (Notes β) α} (h : s ∈ v.childrenSteps node place ignored xs notes) :
    ∃ x ∈ xs, ∃ path, s.path = x.2 :: path := by
  induction xs generalizing notes with
  | nil => exact absurd h List.not_mem_nil
  | cons x xs ih =>
      rcases hrun : v.visitChild node place ignored x.1 notes with ⟨- | halt, next⟩
      · rw [(Visitor.children_cons_of_none hrun xs).2, List.mem_append] at h
        rcases h with h | h
        · exact ⟨x, List.mem_cons_self, path_of_mem_childSteps h⟩
        · obtain ⟨y, hy, hpath⟩ := ih h
          exact ⟨y, List.mem_cons_of_mem _ hy, hpath⟩
      · rw [(Visitor.children_cons_of_some hrun xs).2] at h
        exact ⟨x, List.mem_cons_self, path_of_mem_childSteps h⟩

theorem hook_of_mem_closing {run : Option Halt × Notes β} {s : Visitor.Step (Notes β) α}
    (h : s ∈ v.closing node place run) : s.hook = .leave := by
  rcases run with ⟨- | halt, notes⟩
  · rw [List.mem_singleton.1 h]
    rfl
  · exact absurd h List.not_mem_nil

/-- The children keep the books as if the node itself were not there. -/
theorem books_children (ignored : List ChildRef)
    (hchild : ∀ c ∈ node.children, ∀ m, KeepsBooks v c.2 (some node) place m)
    {xs : List ((ChildRef × Node) × Nat)} (hxs : ∀ x ∈ xs, node.children[x.2]? = some x.1)
    (hdistinct : xs.Pairwise fun x y => x.2 ≠ y.2) (notes : Notes β) :
    Books (node.enclosingBelow opensFrame) notes.tracker.frames
      (v.childrenRun node place ignored xs notes).1
      (v.childrenSteps node place ignored xs notes)
      (v.childrenRun node place ignored xs notes).2.tracker.frames := by
  induction xs generalizing notes with
  | nil => exact .nil _ _ _
  | cons x xs ih =>
      obtain ⟨hlater, hdistinct⟩ := List.pairwise_cons.1 hdistinct
      have hat := hxs x List.mem_cons_self
      have hx : Books (node.enclosingBelow opensFrame) notes.tracker.frames
          (v.visitChild node place ignored x.1 notes).1
          (v.childSteps node place ignored x notes)
          (v.visitChild node place ignored x.1 notes).2.tracker.frames := by
        unfold Visitor.visitChild Visitor.childSteps
        split
        · exact .nil _ _ _
        · exact (hchild x.1 (List.mem_of_getElem? hat) notes).below hat
      rcases hrun : v.visitChild node place ignored x.1 notes with ⟨- | halt, next⟩
      · rw [hrun] at hx
        obtain ⟨hend, hsteps⟩ := Visitor.children_cons_of_none hrun xs
        rw [hend, hsteps]
        refine hx.append (ih (fun y hy => hxs y (List.mem_cons_of_mem _ hy)) hdistinct next) ?_
        -- what one child folds concerns no place below another one
        intro s hs outer houter
        obtain ⟨y, hy, path, hpath⟩ := path_of_mem_childrenSteps hs
        refine heldBy_eq_nil fun entry hentry _ hhead => hlater y hy ?_
        obtain ⟨t, ht, rfl⟩ := List.mem_map.1 hentry
        obtain ⟨path', hpath'⟩ := path_of_mem_childSteps ht
        obtain ⟨i, above, below, habove, rfl⟩ := Node.exists_of_mem_enclosingBelow houter
        obtain ⟨j, above', below', habove', hbelow'⟩ :=
          Node.exists_of_mem_enclosingBelow (List.mem_of_head? hhead)
        rw [hpath, List.cons.injEq] at habove
        rw [show (learned t).1 = t.path from rfl, hpath', List.cons.injEq] at habove'
        rw [habove'.1, ← (List.cons.inj hbelow').1, habove.1]
      · rw [hrun] at hx
        obtain ⟨hend, hsteps⟩ := Visitor.children_cons_of_some hrun xs
        rw [hend, hsteps]
        exact hx

end

/-- What is folded at the node itself concerns no place below it. -/
theorem heldBy_of_path_eq_nil {n : Node} {steps : List (Visitor.Step (Notes β) α)}
    (h : ∀ s ∈ steps, s.path = []) (place : Path) :
    heldBy (n.enclosingBelow opensFrame) (some place) (steps.map learned) = [] := by
  refine heldBy_eq_nil fun entry hentry _ => ?_
  obtain ⟨s, hs, rfl⟩ := List.mem_map.1 hentry
  rw [show (learned s).1 = [] from h s hs]
  exact nofun

/-- The frames along the visit of the children and the hook after them. A frame of
the node is left at the end. -/
theorem books_below (handed : α) (ignored : List ChildRef) (notes : Notes β)
    (hchild : ∀ c ∈ node.children, ∀ m,
      KeepsBooks (visitor token prunes look) c.2 (some node) handed m) :
    let v := visitor token prunes look
    let halt := (v.visitBelow node handed ignored notes).1
    ∃ inner, Books (node.enclosingBelow opensFrame) notes.tracker.frames halt
        (v.childrenSteps node handed ignored node.children.zipIdx notes ++
          v.closing node handed
            (Visitor.runAll (v.visitChild node handed ignored) node.children notes))
        inner ∧
      (halt = none → (v.visitBelow node handed ignored notes).2.tracker.frames =
        if opensFrame node then inner.tail else inner) := by
  intro v halt
  have hchildren := books_children ignored hchild
    (fun x hx => List.mk_mem_zipIdx_iff_getElem?.1 hx) (Visitor.pairwise_zipIdx node.children) notes
  rw [Visitor.childrenRun_zipIdx] at hchildren
  rcases hrun : Visitor.runAll (v.visitChild node handed ignored) node.children notes with
    ⟨- | early, last⟩
  · rw [hrun] at hchildren
    refine ⟨last.tracker.frames, hchildren.append ?_ ?_, fun _ => ?_⟩
    · exact .single (s := v.leaveStep node handed last) rfl rfl fun _ => (record_nil _).symm
    · intro s hs outer houter
      rw [List.mem_singleton.1 hs] at houter
      exact absurd houter List.not_mem_nil
    · rw [Visitor.visitBelow_of_none hrun, Visitor.after_eq]
      exact frames_leave token prunes look node handed last
  · rw [hrun] at hchildren
    have hhalt : halt = some early := congrArg Prod.fst (Visitor.visitBelow_of_some hrun)
    refine ⟨last.tracker.frames, ?_, fun hnone => by rw [hhalt] at hnone; cases hnone⟩
    rw [show v.closing node handed (some early, last) = [] from rfl, List.append_nil, hhalt]
    exact hchildren

/-- The frames along the hooks before the children, at a node without a frame of
its own. -/
theorem books_opening (hlook : Observes look) (hopens : opensFrame node = false)
    (parent : Option Node) (place middle : α) (notes : Notes β) {halt : Option Halt} :
    let v := visitor token prunes look
    let first := v.wildcardStep node place notes
    let second := v.enterStep node parent middle first.next
    (halt = none → second.answer ≠ .exit) →
      Books (node.enclosingBelow opensFrame) notes.tracker.frames halt [first, second]
        second.next.tracker.frames := by
  intro v first second hstays
  have hfirst : Books (node.enclosingBelow opensFrame) notes.tracker.frames none [first]
      notes.tracker.frames := .single (s := first) rfl rfl fun _ => (record_nil _).symm
  refine hfirst.append (b := [second]) ?_ ?_
  · exact .single (s := second) rfl rfl fun hnone =>
      frames_enter token prunes hlook hopens (hstays hnone)
  · intro s hs outer houter
    rw [List.mem_singleton.1 hs] at houter
    exact absurd houter List.not_mem_nil

section

variable {parent : Option Node} {place middle : α} {others : List ChildRef} {notes : Notes β}
  {first second : Visitor.Step (Notes β) α} (hlook : Observes look)
  (hlive : (visitor token prunes look).canceled notes = false)
  (hfirst : (visitor token prunes look).wildcardStep node place notes = first)
  (hsecond : (visitor token prunes look).enterStep node parent middle first.next = second)
  (hbefore : (visitor token prunes look).before node parent place notes =
    (Visitor.absorb middle others second.answer, second.next))
  (hopening : (visitor token prunes look).opening node parent place notes = [first, second])
  (hchild : ∀ handed, ∀ c ∈ node.children, ∀ m,
    KeepsBooks (visitor token prunes look) c.2 (some node) handed m)

include hlook hlive hfirst hsecond hbefore hopening hchild

theorem keepsBooks_of_shut (hopens : opensFrame node = false) :
    KeepsBooks (visitor token prunes look) node parent place notes := by
  have hopened : ∀ halt, (halt = none → second.answer ≠ .exit) →
      Books (node.enclosingBelow opensFrame) notes.tracker.frames halt
        [first, second] second.next.tracker.frames := by
    rw [← hsecond, ← hfirst]
    exact fun halt => books_opening hlook hopens parent place middle notes
  unfold KeepsBooks
  rw [funext (Node.enclosing_of_neg hopens)]
  rcases hstop : Visitor.absorb middle others second.answer with halt | ⟨handed, ignored⟩
  · rw [hstop] at hbefore
    rw [Visitor.visit_of_inl hlive hbefore, Visitor.steps_of_inl hlive hbefore, hopening]
    refine hopened halt ?_
    rintro rfl hexit
    rw [hexit] at hstop
    cases hstop
  · rw [hstop] at hbefore
    obtain ⟨inner, hbooks, hleft⟩ := books_below handed ignored second.next (hchild handed)
    rw [Visitor.visit_of_inr hlive hbefore, Visitor.steps_of_inr hlive hbefore, hopening]
    refine ((hopened none ?_).append hbooks ?_).congr fun hnone => by
      rw [hleft hnone, hopens]
      rfl
    · intro _ hexit
      rw [hexit] at hstop
      cases hstop
    · intro s _ outer _
      refine heldBy_of_path_eq_nil ?_ outer
      rw [← hsecond, ← hfirst]
      exact List.forall_mem_cons.2 ⟨rfl, List.forall_mem_singleton.2 rfl⟩

theorem keepsBooks_of_opensFrame (hopens : opensFrame node = true) :
    KeepsBooks (visitor token prunes look) node parent place notes := by
  have henter := enter_of_opensFrame token prunes hlook hopens parent middle first.next
  have hanswer : second.answer = .continue := by
    rw [← hsecond]
    exact henter.1
  have hframes : second.next.tracker.frames = [] :: notes.tracker.frames := by
    rw [← hsecond]
    refine henter.2.trans ?_
    rw [← hfirst]
    rfl
  rw [hanswer] at hbefore
  obtain ⟨inner, hbooks, hleft⟩ := books_below middle others second.next (hchild middle)
  rw [hframes] at hbooks
  unfold KeepsBooks
  rw [Visitor.visit_of_inr hlive hbefore, Visitor.steps_of_inr hlive hbefore, hopening]
  refine (hbooks.framed hopens ?_ ?_).congr fun hnone => by rw [hleft hnone, if_pos hopens]
  · refine List.forall_mem_cons.2 ⟨?_, List.forall_mem_singleton.2 ?_⟩
    · rw [← hfirst]
      exact ⟨rfl, rfl, nofun⟩
    · rw [← hsecond]
      refine ⟨rfl, ?_, fun _ => by rw [← hfirst]; rfl⟩
      show folded first.next.tracker (constants node) = []
      rw [constants_of_opensFrame hopens]
      rfl
  · intro s hs henter
    rcases List.mem_append.1 hs with hs | hs
    · obtain ⟨x, -, path, hpath⟩ := path_of_mem_childrenSteps hs
      rw [hpath]
      exact List.cons_ne_nil _ _
    · rw [hook_of_mem_closing hs] at henter
      cases henter

end

variable (token prunes) in
/-- The frames along a visit are those that its steps account for. -/
theorem keepsBooks_visitor (hlook : Observes look) (node : Node) (parent : Option Node)
    (place : α) (notes : Notes β) :
    KeepsBooks (visitor token prunes look) node parent place notes := by
  induction node using Node.induction generalizing parent place notes with
  | step node ih =>
      let v := visitor token prunes look
      cases hlive : v.canceled notes with
      | true =>
          unfold KeepsBooks
          rw [Visitor.visit_of_canceled hlive, Visitor.steps_of_canceled hlive]
          exact .nil _ _ _
      | false =>
          have hchild := fun (handed : α) c hc => ih c hc (some node) handed
          rcases v.opening_cases node parent place notes with
            ⟨halt, -, hbefore, hopening⟩ | ⟨middle, others, -, hbefore, hopening⟩
          · unfold KeepsBooks
            rw [Visitor.visit_of_inl hlive hbefore, Visitor.steps_of_inl hlive hbefore, hopening]
            exact .single (s := v.wildcardStep node place notes) rfl rfl
              fun _ => (record_nil _).symm
          · cases hopens : opensFrame node with
            | true =>
                exact keepsBooks_of_opensFrame hlook hlive rfl rfl hbefore hopening hchild hopens
            | false => exact keepsBooks_of_shut hlook hlive rfl rfl hbefore hopening hchild hopens

end

end StyleSense.Assist
