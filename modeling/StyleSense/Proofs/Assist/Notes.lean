/-
# What notes keep

A tracker changes in few ways while a tree is walked. Inside a block only the
innermost frame does, and leaving the block undoes that; the names of the style
API are touched by imports and declarators alone; and the modules that bring
them in never change.
-/

import StyleSense.Assist.Notes

namespace StyleSense

namespace Tracker

/-- Trackers that differ at most in the constants of the innermost frame. -/
structure SameOutside (t u : Tracker) : Prop where
  namespaces : u.namespaces = t.namespaces
  members : u.members = t.members
  modules : u.modules = t.modules
  outer : u.frames.tail = t.frames.tail
  framed : t.frames ≠ [] → u.frames ≠ []

variable {t u w : Tracker}

theorem SameOutside.refl (t : Tracker) : SameOutside t t :=
  ⟨rfl, rfl, rfl, rfl, id⟩

theorem SameOutside.trans (h : SameOutside t u) (h' : SameOutside u w) : SameOutside t w where
  namespaces := h'.namespaces.trans h.namespaces
  members := h'.members.trans h.members
  modules := h'.modules.trans h.modules
  outer := h'.outer.trans h.outer
  framed := h'.framed ∘ h.framed

/-- A binding stays in the innermost frame, if there is one. -/
theorem exists_bind_eq (h : t.frames ≠ []) (name : String) (value : Value) :
    ∃ u, t.bind name value = .ok u ∧ SameOutside t u := by
  rcases hframes : t.frames with - | ⟨frame, outer⟩
  · exact absurd hframes h
  · refine ⟨{ t with frames := Dictionary.put name value frame :: outer }, ?_, rfl, rfl, rfl, ?_,
      fun _ => List.cons_ne_nil _ _⟩
    · rw [bind, hframes]
    · rw [hframes]
      rfl

/-- Leaving a frame undoes what happened in it. -/
theorem pop_of_push (h : SameOutside t.push u) : u.pop = .ok t := by
  obtain ⟨frames, namespaces, members, modules⟩ := u
  obtain ⟨hnamespaces, hmembers, hmodules, houter, hframed⟩ := h
  cases hnamespaces
  cases hmembers
  cases hmodules
  rcases frames with - | ⟨frame, outer⟩
  · exact absurd rfl (hframed (List.cons_ne_nil _ _))
  · cases (show outer = t.frames from houter)
    rfl

/-- Trackers that differ at most in the names of the style API. -/
structure SameConstants (t u : Tracker) : Prop where
  frames : u.frames = t.frames
  modules : u.modules = t.modules

theorem SameConstants.refl (t : Tracker) : SameConstants t t :=
  ⟨rfl, rfl⟩

theorem SameConstants.trans (h : SameConstants t u) (h' : SameConstants u w) :
    SameConstants t w :=
  ⟨h'.frames.trans h.frames, h'.modules.trans h.modules⟩

theorem sameConstants_addNamespace (t : Tracker) (name : String) :
    SameConstants t (t.addNamespace name) := by
  unfold addNamespace
  split <;> exact ⟨rfl, rfl⟩

theorem sameConstants_addExport (t : Tracker) (name exported : String) :
    SameConstants t (t.addExport name exported) := by
  unfold addExport
  split
  · exact sameConstants_addNamespace t name
  · exact ⟨rfl, rfl⟩

theorem sameConstants_addSpecifier (t : Tracker) (specifier : Node) :
    SameConstants t (t.addSpecifier specifier) := by
  unfold addSpecifier
  split
  case h_4 => exact .refl t
  case h_3 =>
    split
    · exact sameConstants_addExport ..
    · exact .refl t
  all_goals
    split
    · exact sameConstants_addNamespace ..
    · exact .refl t

theorem sameConstants_addPattern (ofDefault : Bool) (t : Tracker) (property : Node) :
    SameConstants t (t.addPattern ofDefault property) := by
  unfold addPattern
  split
  · split
    · split
      · exact ⟨rfl, rfl⟩
      · exact sameConstants_addExport ..
    · exact .refl t
  · split <;> exact ⟨rfl, rfl⟩
  · exact .refl t

theorem sameConstants_foldl {step : Tracker → Node → Tracker}
    (hstep : ∀ t n, SameConstants t (step t n)) (ns : List Node) (t : Tracker) :
    SameConstants t (ns.foldl step t) := by
  induction ns generalizing t with
  | nil => exact .refl t
  | cons n ns ih => exact (hstep t n).trans (ih (step t n))

theorem sameConstants_addImport (t : Tracker) (specifiers : List Node) (source : Node) :
    SameConstants t (t.addImport specifiers source) := by
  unfold addImport
  split
  · split
    · exact sameConstants_foldl sameConstants_addSpecifier specifiers t
    · exact .refl t
  · exact .refl t

theorem sameConstants_addRequire (t : Tracker) (target : Node) (init : Option Node) :
    SameConstants t (t.addRequire target init) := by
  unfold addRequire
  split
  · split
    · split
      · exact sameConstants_addNamespace ..
      · exact sameConstants_foldl (sameConstants_addPattern _) _ t
      · exact .refl t
    · exact .refl t
  · exact .refl t

/-- A declarator that requires no module of the style API adds no names. -/
theorem addRequire_eq_self {init : Option Node}
    (h : ∀ required, init.bind requiredModule? = some required →
      t.acceptsModule required.1 = false) (target : Node) :
    t.addRequire target init = t := by
  unfold addRequire
  split
  · rename_i module ofDefault hrequired
    rw [if_neg (by rw [h _ hrequired]; exact Bool.false_ne_true)]
  · rfl

theorem modules_bind {name : String} {value : Value} (h : t.bind name value = .ok u) :
    u.modules = t.modules := by
  unfold bind at h
  split at h
  · cases h
  · cases h
    rfl

theorem modules_pop (h : t.pop = .ok u) : u.modules = t.modules := by
  unfold pop at h
  split at h
  · cases h
  · cases h
    rfl

end Tracker

namespace Assist

variable {t u : Tracker}

/-- Where there is a frame, constants can be bound, and change that frame
alone. -/
theorem exists_bindConstants_eq (h : t.frames ≠ []) (declarators : List Node) :
    ∃ u, bindConstants t declarators = .ok u ∧ t.SameOutside u := by
  fun_induction bindConstants t declarators with
  | case1 t => exact ⟨t, rfl, .refl t⟩
  | case2 t span target init rest name value hname hvalue ih =>
      obtain ⟨bound, hbound, hsame⟩ := Tracker.exists_bind_eq h name value
      obtain ⟨u, hu, hsame'⟩ := ih bound (hsame.framed h)
      exact ⟨u, by rw [hbound]; exact hu, hsame.trans hsame'⟩
  | case3 t span target init rest hnone ih => exact ih h
  | case4 t other rest hother ih => exact ih h

theorem modules_bindConstants {declarators : List Node}
    (h : bindConstants t declarators = .ok u) : u.modules = t.modules := by
  fun_induction bindConstants t declarators with
  | case1 t => cases h; rfl
  | case2 t span target init rest name value hname hvalue ih =>
      rcases hbound : t.bind name value with error | bound
      · rw [hbound] at h
        cases h
      · rw [hbound] at h
        exact (ih bound h).trans (Tracker.modules_bind hbound)
  | case3 t span target init rest hnone ih => exact ih h
  | case4 t other rest hother ih => exact ih h

namespace Notes

variable {α β : Type}

/-- The same notes after another number of nodes. -/
def recounted (notes : Notes β) (visited : Nat) : Notes β :=
  { notes with visited }

/-! The number of nodes visited has no effect on anything else. -/

theorem settle_recounted (notes : Notes β) (visited : Nat) (result : Except ScopeError Tracker) :
    (notes.recounted visited).settle (α := α) result =
      ((notes.settle result).1, (notes.settle (α := α) result).2.recounted visited) := by
  cases result <;> rfl

theorem enter_recounted (notes : Notes β) (visited : Nat) (node : Node) :
    (notes.recounted visited).enter (α := α) node =
      ((notes.enter node).1, (notes.enter (α := α) node).2.recounted visited) := by
  cases node with
  | declaration span kind declarations =>
      by_cases hkind : kind = "const"
      · rw [enter, if_pos hkind, enter, if_pos hkind]
        exact settle_recounted notes visited _
      · rw [enter, if_neg hkind, enter, if_neg hkind]
  | plain form span slots rest => cases form <;> rfl
  | _ => rfl

theorem leave_recounted (notes : Notes β) (visited : Nat) (node : Node) :
    (notes.recounted visited).leave (α := α) node =
      ((notes.leave node).1, (notes.leave (α := α) node).2.recounted visited) := by
  by_cases hopens : opensFrame node = true
  · rw [leave, if_pos hopens, leave, if_pos hopens,
      show (notes.recounted visited).tracker.pop = notes.tracker.pop from rfl, settle_recounted]
    rcases notes.settle (α := α) notes.tracker.pop with ⟨- | flow, next⟩ <;> rfl
  · rw [leave, if_neg hopens, leave, if_neg hopens]

/-! The modules stay. -/

theorem modules_settle {notes : Notes β} {result : Except ScopeError Tracker}
    (h : ∀ t, result = .ok t → t.modules = notes.tracker.modules) :
    (notes.settle (α := α) result).2.tracker.modules = notes.tracker.modules := by
  cases result with
  | ok t => exact h t rfl
  | error error => rfl

theorem modules_enter (notes : Notes β) (node : Node) :
    (notes.enter (α := α) node).2.tracker.modules = notes.tracker.modules := by
  cases node with
  | declaration span kind declarations =>
      by_cases hkind : kind = "const"
      · rw [enter, if_pos hkind]
        exact modules_settle fun t h => modules_bindConstants h
      · rw [enter, if_neg hkind]
  | declarator span target init => exact (Tracker.sameConstants_addRequire ..).modules
  | importFrom span specifiers source asserts => exact (Tracker.sameConstants_addImport ..).modules
  | plain form span slots rest => cases form <;> rfl
  | _ => rfl

theorem modules_leave (notes : Notes β) (node : Node) :
    (notes.leave (α := α) node).2.tracker.modules = notes.tracker.modules := by
  by_cases hopens : opensFrame node = true
  · have hpop : (notes.settle (α := α) notes.tracker.pop).2.tracker.modules =
        notes.tracker.modules := modules_settle fun t h => Tracker.modules_pop h
    rw [leave, if_pos hopens]
    rcases hsettle : notes.settle (α := α) notes.tracker.pop with ⟨- | flow, next⟩
    · rwa [hsettle] at hpop
    · rwa [hsettle] at hpop
  · rw [leave, if_neg hopens]

/-! Taking notes finds nothing. -/

theorem found_settle (notes : Notes β) (result : Except ScopeError Tracker) :
    (notes.settle (α := α) result).2.found = notes.found := by
  cases result <;> rfl

theorem found_enter (notes : Notes β) (node : Node) :
    (notes.enter (α := α) node).2.found = notes.found := by
  cases node with
  | declaration span kind declarations =>
      by_cases hkind : kind = "const"
      · rw [enter, if_pos hkind, found_settle]
      · rw [enter, if_neg hkind]
  | plain form span slots rest => cases form <;> rfl
  | _ => rfl

theorem found_leave (notes : Notes β) (node : Node) :
    (notes.leave (α := α) node).2.found = notes.found := by
  by_cases hopens : opensFrame node = true
  · have hpop := notes.found_settle (α := α) notes.tracker.pop
    rw [leave, if_pos hopens]
    rcases hsettle : notes.settle (α := α) notes.tracker.pop with ⟨- | flow, next⟩
    · rwa [hsettle] at hpop
    · rwa [hsettle] at hpop
  · rw [leave, if_neg hopens]

/-- Notes that settle a node leave it out, or end the walk. -/
theorem ends_of_enter {notes next : Notes β} {node : Node} {flow : Flow α}
    (h : notes.enter node = (some flow, next)) : flow = .skip ∨ flow = .exit := by
  have hsettle : ∀ result, notes.settle result = (some flow, next) → flow = .exit := by
    intro result hresult
    cases result with
    | ok t => cases hresult
    | error error =>
        cases hresult
        rfl
  cases node with
  | declaration span kind declarations =>
      rw [enter] at h
      split at h
      · exact .inr (hsettle _ h)
      · cases h
  | importFrom span specifiers source asserts =>
      cases h
      exact .inl rfl
  | plain form span slots rest =>
      cases form with
      | withStatement =>
          cases h
          exact .inl rfl
      | _ => cases h
  | _ => cases h

/-- An answer is made of what was found. -/
theorem found_of_finish {γ : Type} {notes : Notes β} {outcome : Outcome} {f : β → γ} {y : γ}
    (h : (notes.finish outcome).map (Option.map f) = .ok (some y)) : f notes.found = y := by
  unfold finish at h
  split at h
  · cases h
  · split at h
    · cases h
    · exact Option.some.inj (Except.ok.inj h)

/-- The notes that the hook before the children is given. -/
def counted (notes : Notes β) : Notes β :=
  { notes with visited := notes.visited + 1 }

end Notes

section

variable {token : Token} {prunes : Node → Bool}
  {look : Node → Option Node → α → Notes β → Flow α × Notes β} {node : Node}

theorem wildcard_of_leftOut (h : (!alwaysVisited node && prunes node) = true) (place : α)
    (notes : Notes β) :
    (visitor token prunes look).wildcard node place notes = (.skip, notes.counted) := by
  simp only [visitor, if_pos h, Notes.counted]

theorem wildcard_of_kept (h : (!alwaysVisited node && prunes node) = false) (place : α)
    (notes : Notes β) :
    (visitor token prunes look).wildcard node place notes = (.continue, notes.counted) := by
  simp only [visitor, h, Bool.false_eq_true, if_false, Notes.counted]

theorem before_of_leftOut (h : (!alwaysVisited node && prunes node) = true)
    (parent : Option Node) (place : α) (notes : Notes β) :
    (visitor token prunes look).before node parent place notes = (.inl none, notes.counted) := by
  simp only [Visitor.before, wildcard_of_leftOut h, Visitor.absorb]

theorem before_of_kept (h : (!alwaysVisited node && prunes node) = false)
    (parent : Option Node) (place : α) (notes : Notes β) :
    (visitor token prunes look).before node parent place notes =
      (Visitor.absorb place []
          ((visitor token prunes look).enter node parent place notes.counted).1,
        ((visitor token prunes look).enter node parent place notes.counted).2) := by
  simp only [Visitor.before, wildcard_of_kept h, Visitor.absorb]

end

end Assist

end StyleSense
