/-
# What a search for colors reads

A search for colors reads the values of entries below a style call and the
literals among the arguments of a style type. What a walk finds are the swatches
of all that its steps read, in their order. A swatch starts behind its quote,
and what is read at a node is in its sight.
-/

import Mathlib.Data.List.Flatten
import StyleSense.Proofs.Assist.Descent
import StyleSense.Proofs.Assist.Exposure
import StyleSense.Proofs.Document
import StyleSense.Proofs.Evaluate.Likeness

namespace StyleSense.Assist.Coloring

open StyleSense.Text StyleSense.Visitor

variable {q : Query} {t : Tracker} {n : Node} {place : Nat}

/-- The byte of the quote before the swatch of an evaluation. -/
def place? (q : Query) : Evaluation → Option Nat
  | .known (.string text) span =>
      (swatch? q text span).map fun _ => Document.localByte span.start q.base
  | _ => none

/-- The bytes of the quotes before the swatches of a value. -/
def places (q : Query) : Evaluation → List Nat
  | .known (.array items) _ => items.filterMap (place? q)
  | value => (place? q value).toList

/-- A byte of a quote with a text behind it. -/
structure Opens (q : Query) (place : Nat) : Prop where
  ascii : q.document.HasAscii place
  room : place + 2 < UInt32.size

theorem swatch?_eq_some {text : String} {span : Span} {s : Swatch}
    (h : swatch? q text span = some s) :
    q.document.HasAscii (Document.localByte span.start q.base) ∧
      Document.localByte span.start q.base + 2 ≤ Document.localByte span.stop q.base ∧
      s.range.start = q.document.positionOfByte (Document.localByte span.start q.base + 1) := by
  obtain ⟨color, -, h⟩ := Option.bind_eq_some_iff.1 h
  split at h
  · cases h
  · obtain ⟨quote, hquote, h⟩ := Option.bind_eq_some_iff.1 h
    split at h
    next hquoted =>
      cases h
      rw [Bool.and_eq_true, decide_eq_true_eq] at hquoted
      refine ⟨⟨quote, hquote, ?_⟩, hquoted.2, rfl⟩
      have hmarks := hquoted.1
      simp only [Bool.or_eq_true, decide_eq_true_eq] at hmarks
      rcases hmarks with (rfl | rfl) | hmark
      · decide
      · decide
      · omega
    · cases h

theorem opens_of_place? {e : Evaluation} (h : place? q e = some place) : Opens q place := by
  unfold place? at h
  split at h
  next text span =>
    obtain ⟨s, hs, rfl⟩ := Option.map_eq_some_iff.1 h
    obtain ⟨hascii, hroom, -⟩ := swatch?_eq_some hs
    exact ⟨hascii, Nat.lt_of_le_of_lt hroom (UInt32.toNat_lt_size _)⟩
  · cases h

theorem opens_of_mem_places {e : Evaluation} (h : place ∈ places q e) : Opens q place := by
  unfold places at h
  split at h
  · obtain ⟨item, -, hitem⟩ := List.mem_filterMap.1 h
    exact opens_of_place? hitem
  · exact opens_of_place? (Option.mem_toList.1 h)

theorem start_ofEvaluation? (q : Query) (e : Evaluation) :
    (ofEvaluation? q e).map (·.range.start) =
      (place? q e).map fun place => q.document.positionOfByte (place + 1) := by
  cases e with
  | known value span =>
      cases value with
      | string text =>
          rw [ofEvaluation?, place?]
          cases hs : swatch? q text span with
          | none => rfl
          | some s => exact congrArg some (swatch?_eq_some hs).2.2
      | _ => rfl
  | _ => rfl

/-- A swatch starts behind its quote. -/
theorem starts_ofValue (q : Query) (e : Evaluation) :
    (ofValue q e).map (·.range.start) =
      (places q e).map fun place => q.document.positionOfByte (place + 1) := by
  have hsingle : (ofEvaluation? q e).toList.map (·.range.start) =
      (place? q e).toList.map fun place => q.document.positionOfByte (place + 1) := by
    rw [← Option.toList_map, ← Option.toList_map, start_ofEvaluation?]
  cases e with
  | known value span =>
      cases value with
      | array items =>
          rw [ofValue, places, List.map_filterMap, List.map_filterMap]
          exact List.filterMap_congr fun item _ => start_ofEvaluation? q item
      | _ => exact hsingle
  | _ => exact hsingle

/-- The literal that a type is. -/
def typeLiteral : Node → List Node
  | .literalType _ literal => if literal.isLiteral then [literal] else []
  | _ => []

/-- The literals of a type: the type itself, or those in a union. -/
def typeLiterals : Node → List Node
  | .unionType _ types => types.flatMap typeLiteral
  | type => typeLiteral type

/-- The literals among the properties of an object type. -/
def paramLiterals : Node → List Node
  | .typeLiteral _ members => members.flatMap fun
      | .propertySignature _ _ (some (.declaredType _ annotated)) => typeLiterals annotated
      | _ => []
  | _ => []

/-- The literals among the arguments of a style type. -/
def referenceLiterals (t : Tracker) (name : Node) : Option Node → List Node
  | some (.typeArguments _ params) =>
      if isStyleType t name then params.flatMap paramLiterals else []
  | _ => []

/-- The nodes whose values are shown at a reader. -/
def reads (t : Tracker) (call : Option CallKind) : Node → List Node
  | .typeReference _ name params => referenceLiterals t name params
  | .pair .property _ value =>
      if call.isNone then []
      else
        match readingOf t value with
        | .expression node => [node]
        | _ => []
  | _ => []

/-- The swatches of some nodes. -/
def swatchesOf (q : Query) (t : Tracker) (nodes : List Node) : List Swatch :=
  nodes.flatMap fun n => ofValue q (t.evaluate n)

theorem ofLiteralType_eq_swatchesOf (q : Query) (t : Tracker) (n : Node) :
    ofLiteralType q t n = swatchesOf q t (typeLiteral n) := by
  cases n with
  | literalType span literal =>
      cases literal with
      | string place value => exact (List.append_nil _).symm
      | template place quasis expressions types =>
          show (ofEvaluation? q _).toList = swatchesOf q t [_]
          rw [swatchesOf, List.flatMap_singleton, Tracker.evaluate_template]
          cases (templateText? quasis (t.evaluateAll expressions)) <;> rfl
      | _ => rfl
  | _ => rfl

theorem flatMap_swatchesOf (q : Query) (t : Tracker) (ns : List Node) {f : Node → List Swatch}
    {g : Node → List Node} (h : ∀ n, f n = swatchesOf q t (g n)) :
    ns.flatMap f = swatchesOf q t (ns.flatMap g) := by
  rw [swatchesOf, List.flatMap_assoc]
  exact List.flatMap_congr fun n _ => h n

theorem ofType_eq_swatchesOf (q : Query) (t : Tracker) (n : Node) :
    ofType q t n = swatchesOf q t (typeLiterals n) := by
  have hliteral := ofLiteralType_eq_swatchesOf q t n
  cases n with
  | unionType span types => exact flatMap_swatchesOf q t types (ofLiteralType_eq_swatchesOf q t)
  | _ => exact hliteral

theorem ofParam_eq_swatchesOf (q : Query) (t : Tracker) (n : Node) :
    ofParam q t n = swatchesOf q t (paramLiterals n) := by
  cases n with
  | typeLiteral span members =>
      refine flatMap_swatchesOf q t members fun member => ?_
      cases member with
      | propertySignature span key declared =>
          cases declared with
          | none => rfl
          | some declared =>
              cases declared with
              | declaredType span annotated => exact ofType_eq_swatchesOf q t annotated
              | _ => rfl
      | _ => rfl
  | _ => rfl

theorem ofReference_eq_swatchesOf (q : Query) (t : Tracker) (name : Node) (params : Option Node) :
    ofReference q t name params = swatchesOf q t (referenceLiterals t name params) := by
  cases params with
  | none => rfl
  | some params =>
      cases params with
      | typeArguments span params =>
          rw [ofReference, referenceLiterals]
          split
          · exact flatMap_swatchesOf q t params (ofParam_eq_swatchesOf q t)
          · rfl
      | _ => rfl

/-- Looking at a node adds the swatches of what is read there. -/
theorem found_look (q : Query) (node : Node) (parent : Option Node) (call : Option CallKind)
    (notes : Notes (List Swatch)) :
    (look q node parent call notes).2.found =
      notes.found ++ swatchesOf q notes.tracker (reads notes.tracker call node) := by
  have hnothing : notes.found = notes.found ++ swatchesOf q notes.tracker [] :=
    (List.append_nil _).symm
  cases node with
  | call span callee arguments typeArgs =>
      simp only [look]
      split <;> exact hnothing
  | typeReference span name params => simp only [look, reads, ofReference_eq_swatchesOf]
  | pair kind key value =>
      cases kind with
      | property =>
          simp only [look, reads]
          split
          · exact hnothing
          · cases readingOf notes.tracker value with
            | expression node => simp only [swatchesOf, List.flatMap_singleton]
            | _ => exact hnothing
      | _ => exact hnothing
  | _ => exact hnothing

/-- What is taken from each node by itself exposes no more than they all do. -/
theorem flatMap_exposed_sublist {g : Node → List Node}
    (h : ∀ n, ((g n).flatMap exposed).Sublist (exposed n)) (ns : List Node) :
    ((ns.flatMap g).flatMap exposed).Sublist (ns.flatMap exposed) := by
  rw [List.flatMap_assoc]
  exact List.Sublist.flatMap_right ns fun n _ => h n

theorem typeLiteral_exposed (n : Node) : ((typeLiteral n).flatMap exposed).Sublist (exposed n) := by
  cases n with
  | literalType span literal =>
      rw [typeLiteral]
      split
      · rw [List.flatMap_singleton]
        exact exposed_child rfl (c := (.whole .literal, literal)) List.mem_cons_self
      · exact List.nil_sublist _
  | _ => exact List.nil_sublist _

theorem typeLiterals_exposed (n : Node) :
    ((typeLiterals n).flatMap exposed).Sublist (exposed n) := by
  have hliteral := typeLiteral_exposed n
  cases n with
  | unionType span types =>
      rw [exposed_eq rfl rfl, Node.children, Node.map_snd_listChildren]
      exact flatMap_exposed_sublist typeLiteral_exposed types
  | _ => exact hliteral

theorem paramLiterals_exposed (n : Node) :
    ((paramLiterals n).flatMap exposed).Sublist (exposed n) := by
  cases n with
  | typeLiteral span members =>
      rw [exposed_eq rfl rfl, Node.children, Node.map_snd_listChildren]
      refine flatMap_exposed_sublist (fun member => ?_) members
      split
      next place key span annotated =>
        have hdeclared := exposed_child (n := .declaredType span annotated) rfl
          (c := (.whole .declaredType, annotated)) List.mem_cons_self
        have hmember := exposed_child
          (n := .propertySignature place key (some (.declaredType span annotated))) rfl
          (c := (.whole .declaredType, .declaredType span annotated))
          (List.mem_append_right _ List.mem_cons_self)
        exact (typeLiterals_exposed annotated).trans (hdeclared.trans hmember)
      · exact List.nil_sublist _
  | _ => exact List.nil_sublist _

theorem exposed_of_readingOf {value : Node} (h : readingOf t value = .expression n) :
    (exposed n).Sublist (exposed value) := by
  unfold readingOf at h
  split at h
  next span callee arguments typeArgs =>
    split at h
    · cases h
      exact List.Sublist.refl _
    · split at h
      · cases h
      · split at h
        · cases h
        next first rest =>
          cases h
          split
          · obtain ⟨ref, hc⟩ := Node.exists_mem_argumentChildren (a := first) List.mem_cons_self
            exact exposed_child (n := .call span callee (first :: rest) typeArgs) rfl
              (List.mem_append_left _ (List.mem_append_right _ hc))
          · exact List.Sublist.refl _
  · split at h
    · cases h
      exact List.Sublist.refl _
    · cases h

/-- A reader shows nodes in its sight. -/
theorem reads_inSight (t : Tracker) (call : Option CallKind) (n : Node) :
    ((reads t call n).flatMap exposed).Sublist (inSight n) := by
  unfold reads
  split
  next span name params =>
    unfold referenceLiterals
    split
    next place params =>
      split
      · have hparams := exposed_child_inSight
          (n := .typeReference span name (some (.typeArguments place params))) rfl
          (c := (.whole .typeParams, .typeArguments place params))
          (List.mem_append_right _ List.mem_cons_self)
        rw [exposed_eq rfl rfl, Node.children, Node.map_snd_listChildren] at hparams
        exact (flatMap_exposed_sublist paramLiterals_exposed params).trans hparams
      · exact List.nil_sublist _
    · exact List.nil_sublist _
  next key value =>
    split
    · exact List.nil_sublist _
    · split
      next node hreading =>
        rw [List.flatMap_singleton]
        exact (exposed_of_readingOf hreading).trans
          (exposed_child_inSight rfl (Node.value_mem_children .property key value))
      · exact List.nil_sublist _
  · exact List.nil_sublist _

/-- The nodes whose values a step shows. -/
def readBy (s : Step (Notes (List Swatch)) (Option CallKind)) : List Node :=
  if s.hook = .enter then reads s.memory.tracker s.state s.node else []

/-- Where something is read, there is nothing to take note of. -/
theorem reads_eq_nil_or (n : Node) :
    (∀ t call, reads t call n = []) ∨
      ∀ notes : Notes (List Swatch), notes.enter (α := Option CallKind) n = (none, notes) := by
  cases n with
  | typeReference => exact .inr fun _ => rfl
  | pair => exact .inr fun _ => rfl
  | _ => exact .inl fun _ _ => rfl

section

variable {token : Token} {prunes : Node → Bool}
  {s : Step (Notes (List Swatch)) (Option CallKind)}

/-- A step adds the swatches of what it reads. -/
theorem found_step (h : (visitor token prunes (look q)).Makes s) :
    s.next.found = s.memory.found ++ swatchesOf q s.memory.tracker (readBy s) := by
  by_cases hquiet : s.hook = .enter ∧
      ∀ notes : Notes (List Swatch), notes.enter (α := Option CallKind) s.node = (none, notes)
  · obtain ⟨henter, hquiet⟩ := hquiet
    rw [Makes, henter] at h
    have hnext := congrArg Prod.snd h
    simp only [visitor, hquiet] at hnext
    rw [hnext, readBy, if_pos henter]
    exact found_look ..
  · -- nothing is read here, so looking finds nothing either
    have hnil : s.hook = .enter → ∀ t call, reads t call s.node = [] := fun henter =>
      (reads_eq_nil_or s.node).resolve_right fun hnotes => hquiet ⟨henter, hnotes⟩
    have hread : readBy s = [] := by
      unfold readBy
      split
      next henter => exact hnil henter _ _
      · rfl
    have hsame : s.next.found = s.memory.found := by
      by_contra hne
      obtain ⟨henter, noted, -, hfound, hlook⟩ := looked_of_found_ne h hne
      have hnext := (congrArg (·.2.found) hlook).trans (found_look ..)
      rw [hnil henter, swatchesOf, List.flatMap_nil, List.append_nil] at hnext
      exact hne (hnext.trans hfound)
    rw [hsame, hread]
    exact (List.append_nil _).symm

/-- A visit adds the swatches of what its steps read. -/
theorem found_visit (q : Query) (token : Token) (prunes : Node → Bool) (node : Node)
    (parent : Option Node) (state : Option CallKind) (m : Notes (List Swatch)) :
    let v := visitor token prunes (look q)
    (v.visit node parent state m).2.found =
      m.found ++ (v.steps node parent state m).flatMap fun s =>
        swatchesOf q s.memory.tracker (readBy s) := by
  intro v
  refine Joins.visit (v := v) (P := fun m _ next steps => next.found = m.found ++
    steps.flatMap fun s => swatchesOf q s.memory.tracker (readBy s)) ⟨?_, ?_, ?_, ?_, ?_⟩
      node parent state m
  · exact fun m _ => (List.append_nil _).symm
  · exact fun m => (List.append_nil _).symm
  · intro s hmakes _
    rw [List.flatMap_singleton]
    exact found_step hmakes
  · intro m middle next halt a b ha hb
    rw [hb, ha, List.flatMap_append, List.append_assoc]
  · intro m next halt a index ha
    rw [ha, List.flatMap_map]
    rfl

end

end StyleSense.Assist.Coloring
