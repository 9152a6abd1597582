/-
# Trackers side by side

A tree and a copy of it with other spans are read side by side, each with a
tracker of its own. The trackers then know the same names of the style API and
bind the same names in the same frames, to values that differ in places alone.
Every operation on both keeps it so, and every question to both has the same
answer, or answers that differ in places alone.
-/

import StyleSense.Scope.Aliases
import StyleSense.Proofs.Evaluate.Likeness

namespace StyleSense

namespace Tracker

/-- Trackers with the same names and, frame by frame, like constants. -/
structure Parallel (r : Latitude) (t u : Tracker) : Prop where
  namespaces : u.namespaces = t.namespaces
  members : u.members = t.members
  modules : u.modules = t.modules
  frames : List.Forall₂ (Dictionary.Related (Value.Alike r)) t.frames u.frames

/-- Parallel trackers, or the same error. -/
inductive ParallelResults (r : Latitude) :
    Except ScopeError Tracker → Except ScopeError Tracker → Prop
  | ok {t u : Tracker} (h : t.Parallel r u) : ParallelResults r (.ok t) (.ok u)
  | error (e : ScopeError) : ParallelResults r (.error e) (.error e)

namespace Parallel

variable {r : Latitude} {f : Span → Span} {t u : Tracker} {n : Node}

theorem of_no_frames (h : t.frames = []) : t.Parallel r t :=
  ⟨rfl, rfl, rfl, h ▸ .nil⟩

theorem push (h : t.Parallel r u) : t.push.Parallel r u.push :=
  ⟨h.namespaces, h.members, h.modules, .cons .nil h.frames⟩

theorem pop (h : t.Parallel r u) : ParallelResults r t.pop u.pop := by
  obtain ⟨hnamespaces, hmembers, hmodules, hframes⟩ := h
  unfold Tracker.pop
  generalize t.frames = before at hframes
  generalize u.frames = after at hframes
  cases hframes with
  | nil => exact .error .underflow
  | cons _ houter => exact .ok ⟨hnamespaces, hmembers, hmodules, houter⟩

theorem bind (h : t.Parallel r u) (name : String) {v w : Value} (hvalue : Value.Alike r v w) :
    ParallelResults r (t.bind name v) (u.bind name w) := by
  obtain ⟨hnamespaces, hmembers, hmodules, hframes⟩ := h
  unfold Tracker.bind
  generalize t.frames = before at hframes
  generalize u.frames = after at hframes
  cases hframes with
  | nil => exact .error (.noActiveScope name)
  | cons hframe houter =>
      exact .ok ⟨hnamespaces, hmembers, hmodules, .cons (hframe.put name hvalue) houter⟩

/-- A name has like values on both sides, or none. -/
theorem lookup?_cases (h : t.Parallel r u) (name : String) :
    (t.lookup? name = none ∧ u.lookup? name = none) ∨
      ∃ v w, t.lookup? name = some v ∧ u.lookup? name = some w ∧ Value.Alike r v w := by
  have hframes := h.frames
  unfold lookup?
  generalize t.frames = before at hframes
  generalize u.frames = after at hframes
  induction hframes with
  | nil => exact .inl ⟨rfl, rfl⟩
  | cons hframe _ ih =>
      rw [List.findSome?_cons, List.findSome?_cons]
      rcases Dictionary.Related.get? hframe name with ⟨hv, hw⟩ | ⟨v, w, hv, hw, hvalue⟩
      · rw [hv, hw]
        exact ih
      · rw [hv, hw]
        exact .inr ⟨v, w, rfl, rfl, hvalue⟩

theorem alike (h : t.Parallel r u) : t.Alike r u where
  namespaces := h.namespaces
  members := h.members
  known name v hv := by
    rcases h.lookup?_cases name with ⟨hnone, -⟩ | ⟨v', w, hv', hw, hvalue⟩
    · rw [hnone] at hv
      cases hv
    · rw [hv'] at hv
      cases hv
      exact ⟨w, hw, hvalue⟩
  unknown name hnone := by
    rcases h.lookup?_cases name with ⟨-, hnone'⟩ | ⟨v, w, hv, -⟩
    · exact .inr hnone'
    · rw [hv] at hnone
      cases hnone

theorem evaluate (h : t.Parallel r u) (hstrict : ¬r.loose) (hn : n.Placed r f) :
    Evaluation.Alike r (t.evaluate n) (u.evaluate (n.mapSpans f)) :=
  h.alike.evaluate (hn.comparable hstrict)

theorem propertyKey?_eq (h : t.Parallel r u) (hstrict : ¬r.loose) (hn : n.Placed r f) :
    u.propertyKey? (n.mapSpans f) = t.propertyKey? n :=
  Alike.propertyKey? (h.evaluate hstrict hn) fun _ _ _ hloose => absurd hloose hstrict

theorem isNamespace_eq (h : t.Parallel r u) (name : String) :
    u.isNamespace name = t.isNamespace name :=
  h.alike.isNamespace_eq name

theorem member?_eq (h : t.Parallel r u) (name : String) : u.member? name = t.member? name :=
  h.alike.member?_eq name

theorem resolveCallee?_eq (h : t.Parallel r u) (f : Span → Span) (n : Node) :
    u.resolveCallee? (n.mapSpans f) = t.resolveCallee? n :=
  h.alike.resolveCallee?_mapSpans n

theorem resolveValueType?_eq (h : t.Parallel r u) (f : Span → Span) (n : Node) :
    u.resolveValueType? (n.mapSpans f) = t.resolveValueType? n :=
  h.alike.resolveValueType?_mapSpans n

theorem acceptsModule_eq (h : t.Parallel r u) (specifier : String) :
    u.acceptsModule specifier = t.acceptsModule specifier := by
  rw [acceptsModule, acceptsModule, h.modules]

theorem addNamespace (h : t.Parallel r u) (name : String) :
    (t.addNamespace name).Parallel r (u.addNamespace name) := by
  unfold Tracker.addNamespace
  rw [h.namespaces]
  split
  · exact h
  · exact ⟨rfl, h.members, h.modules, h.frames⟩

theorem addMember (h : t.Parallel r u) (name imported : String) :
    (t.addMember name imported).Parallel r (u.addMember name imported) := by
  unfold Tracker.addMember
  rw [h.members]
  exact ⟨h.namespaces, rfl, h.modules, h.frames⟩

theorem addExport (h : t.Parallel r u) (name exported : String) :
    (t.addExport name exported).Parallel r (u.addExport name exported) := by
  unfold Tracker.addExport
  split
  · exact h.addNamespace name
  · exact h.addMember name exported

theorem addSpecifier (h : t.Parallel r u) (f : Span → Span) (specifier : Node) :
    (t.addSpecifier specifier).Parallel r (u.addSpecifier (specifier.mapSpans f)) := by
  cases specifier with
  | importDefault span name =>
      rw [Node.mapSpans, Tracker.addSpecifier, Tracker.addSpecifier,
        Node.identifierName?_mapSpans]
      cases name.identifierName? with
      | none => exact h
      | some name => exact h.addNamespace name
  | importNamespace span name =>
      rw [Node.mapSpans, Tracker.addSpecifier, Tracker.addSpecifier,
        Node.identifierName?_mapSpans]
      cases name.identifierName? with
      | none => exact h
      | some name => exact h.addNamespace name
  | importNamed span name imported =>
      have himported : (Node.mapSpansOption f imported).bind Node.exportName? =
          imported.bind Node.exportName? := by
        cases imported with
        | none => rfl
        | some imported => exact Node.exportName?_mapSpans f imported
      rw [Node.mapSpans, Tracker.addSpecifier, Tracker.addSpecifier,
        Node.identifierName?_mapSpans, himported]
      cases name.identifierName? with
      | none => exact h
      | some name => exact h.addExport name _
  | _ => exact h

theorem foldl {step : Tracker → Node → Tracker} {ns : List Node}
    (hstep : ∀ n ∈ ns, ∀ t u, t.Parallel r u → (step t n).Parallel r (step u (n.mapSpans f)))
    (h : t.Parallel r u) :
    (ns.foldl step t).Parallel r ((Node.mapSpansAll f ns).foldl step u) := by
  rw [Node.mapSpansAll_eq_map, List.foldl_map]
  exact List.foldl_rel h hstep

theorem addImport (h : t.Parallel r u) (f : Span → Span) (specifiers : List Node)
    (source : Node) :
    (t.addImport specifiers source).Parallel r
      (u.addImport (Node.mapSpansAll f specifiers) (source.mapSpans f)) := by
  unfold Tracker.addImport
  rw [Node.stringValue?_mapSpans]
  cases source.stringValue? with
  | none => exact h
  | some module =>
      simp only [h.acceptsModule_eq]
      split
      · apply foldl _ h
        intro specifier _ t u htracker
        exact htracker.addSpecifier f specifier
      · exact h

end Parallel

theorem requireCall?_mapSpans (f : Span → Span) (n : Node) :
    requireCall? (n.mapSpans f) = requireCall? n := by
  cases n with
  | call span callee arguments types =>
      unfold requireCall?
      simp only [Node.mapSpans, Node.identifierName?_mapSpans]
      cases arguments with
      | nil => rfl
      | cons first rest =>
          obtain ⟨dots, expression⟩ := first
          simp only [Node.mapSpansArguments, Option.isSome_map, Node.stringValue?_mapSpans]
  | _ => rfl

theorem requiredModule?_mapSpans (f : Span → Span) (n : Node) :
    requiredModule? (n.mapSpans f) = requiredModule? n := by
  cases n with
  | member span object property =>
      rw [Node.mapSpans, requiredModule?, requiredModule?, Node.identifierName?_mapSpans,
        requireCall?_mapSpans]
  | call => exact congrArg (Option.map (·, false)) (requireCall?_mapSpans f _)
  | _ => rfl

theorem bindingName?_mapSpans (f : Span → Span) (n : Node) :
    bindingName? (n.mapSpans f) = bindingName? n := by
  cases n with
  | defaulted span left right => exact Node.identifierName?_mapSpans f left
  | _ => rfl

namespace Parallel

variable {r : Latitude} {f : Span → Span} {t u : Tracker}

theorem addPattern (h : t.Parallel r u) (hstrict : ¬r.loose) (ofDefault : Bool) {property : Node}
    (hproperty : property.Placed r f) :
    (t.addPattern ofDefault property).Parallel r
      (u.addPattern ofDefault (property.mapSpans f)) := by
  cases property with
  | pair kind key value =>
      cases kind with
      | pattern =>
          rw [Node.mapSpans, Tracker.addPattern, Tracker.addPattern,
            h.propertyKey?_eq hstrict hproperty.key, bindingName?_mapSpans]
          split
          · split
            · exact h.addMember ..
            · exact h.addExport ..
          · exact h
      | _ => exact h
  | shorthand span key value =>
      rw [Node.mapSpans, Tracker.addPattern, Tracker.addPattern, Node.identifierName?_mapSpans]
      cases key.identifierName? with
      | none => exact h
      | some name => exact h.addMember name name
  | _ => exact h

theorem addRequire (h : t.Parallel r u) (hstrict : ¬r.loose) {target : Node}
    (htarget : target.Placed r f) (init : Option Node) :
    (t.addRequire target init).Parallel r
      (u.addRequire (target.mapSpans f) (Node.mapSpansOption f init)) := by
  have hrequired : (Node.mapSpansOption f init).bind requiredModule? =
      init.bind requiredModule? := by
    cases init with
    | none => rfl
    | some init => exact requiredModule?_mapSpans f init
  unfold Tracker.addRequire
  rw [hrequired]
  cases init.bind requiredModule? with
  | none => exact h
  | some required =>
      simp only [h.acceptsModule_eq]
      split
      · cases target with
        | identifier span name => exact h.addNamespace name
        | objectPattern span properties =>
            apply foldl _ h
            intro property hmem t u htracker
            obtain ⟨ref, hc⟩ := Node.exists_mem_listChildren hmem
            have hproperty := htarget.child (List.mem_append_left _ hc)
            exact htracker.addPattern hstrict _ hproperty
        | _ => exact h
      · exact h

end Parallel

end Tracker

end StyleSense
