/-
# The bytes a tree stands at

Two placings of one tree are alike for the analyses when corresponding spans are
the same bytes of the document. Each analysis reads a span in few ways: against
the cursor, as a range of the document, or to see whether a text is the key it
stands in. All of them come out the same, and so do all the answers.
-/

import StyleSense.Proofs.Assist.Parallel
import StyleSense.Proofs.Document

namespace StyleSense

open StyleSense.Text

/-- Spans that `r` lets stand for each other are the same bytes when read
against `base` and `base'`, and nothing new may be known. -/
structure Latitude.SameBytes (r : Latitude) (base base' : UInt32) : Prop where
  strict : ¬r.loose
  start : ∀ {s s'}, r.place s s' →
    Document.localByte s'.start base' = Document.localByte s.start base
  stop : ∀ {s s'}, r.place s s' →
    Document.localByte s'.stop base' = Document.localByte s.stop base
  same : ∀ {s s' t t'}, r.place s s' → r.place t t' → (s' = t' ↔ s = t)

variable {r : Latitude} {f : Span → Span} {t u : Tracker} {base base' : UInt32}

theorem Latitude.SameBytes.rangeOfSpan_eq (h : r.SameBytes base base') (d : Document)
    {s s' : Span} (hplace : r.place s s') : d.rangeOfSpan s' base' = d.rangeOfSpan s base := by
  rw [Document.rangeOfSpan, Document.rangeOfSpan, h.start hplace, h.stop hplace]

namespace Style

variable {a b : Evaluation}

theorem scalarText?_eq (hstrict : ¬r.loose) (h : Evaluation.Alike r a b)
    (normalize : Normalization) (property : String) :
    scalarText? normalize property b = scalarText? normalize property a := by
  cases h with
  | opened hloose => exact absurd hloose hstrict
  | dynamic => rfl
  | reference => rfl
  | @known v w s t hvalue =>
      cases hvalue with
      | simple => cases v <;> rfl
      | array => rfl
      | object => rfl

theorem mapM_scalarText?_eq (hstrict : ¬r.loose) {xs ys : List Evaluation}
    (h : List.Forall₂ (Evaluation.Alike r) xs ys) (normalize : Normalization)
    (property : String) :
    ys.mapM (scalarText? normalize property) = xs.mapM (scalarText? normalize property) := by
  induction h with
  | nil => rfl
  | cons hitem _ ih =>
      rw [List.mapM_cons, List.mapM_cons, scalarText?_eq hstrict hitem, ih]

theorem declaredTexts?_eq (hstrict : ¬r.loose) (h : Evaluation.Alike r a b)
    (normalize : Normalization) (property : String) :
    declaredTexts? normalize property b = declaredTexts? normalize property a := by
  have hscalar := scalarText?_eq hstrict h normalize property
  cases h with
  | opened hloose => exact absurd hloose hstrict
  | dynamic => rfl
  | reference => rfl
  | @known v w s t hvalue =>
      cases hvalue with
      | array hitems => exact mapM_scalarText?_eq hstrict hitems normalize property
      | object => exact congrArg (Option.map ([·])) hscalar
      | simple =>
          cases v with
          | array => rfl
          | _ => exact congrArg (Option.map ([·])) hscalar

theorem preview?_eq (hstrict : ¬r.loose) (h : Evaluation.Alike r a b)
    (normalize : Normalization) (site : Site) :
    preview? normalize site b = preview? normalize site a := by
  rw [preview?, preview?, declaredTexts?_eq hstrict h]

end Style

namespace Assist

theorem styleCall?_eq (h : t.Parallel r u) (f : Span → Span) (callee : Node) :
    styleCall? u (callee.mapSpans f) = styleCall? t callee := by
  rw [styleCall?, styleCall?, h.resolveCallee?_eq]

namespace Hover

variable {q : Query}

theorem touches_eq (hq : r.SameBytes q.base base') {s s' : Span} (hplace : r.place s s') :
    Query.touches { q with base := base' } s' = q.touches s := by
  simp only [Query.touches, hq.start hplace, hq.stop hplace]

theorem enterCall_eq (h : t.Parallel r u) (f : Span → Span) (callee : Node)
    (parent : Option Node) (place : Place) :
    enterCall u (callee.mapSpans f) (parent.map (Node.mapSpans f)) place =
      enterCall t callee parent place := by
  unfold enterCall
  rw [styleCall?_eq h, h.resolveValueType?_eq]
  cases styleCall? t callee with
  | none => rfl
  | some kind =>
      cases parent with
      | none => rfl
      | some parent =>
          cases parent with
          | declarator span target =>
              simp only [Option.map_some, Node.mapSpans, Node.identifierName?_mapSpans]
          | _ => rfl

/-- What was taken out of a call, with other spans. -/
def Unwrapped.mapSpans (f : Span → Span) : Unwrapped → Unwrapped
  | .empty => .empty
  | .value node type => .value (node.mapSpans f) type

theorem unwrap_eq (h : t.Parallel r u) (f : Span → Span) (value : Node) :
    unwrap u (value.mapSpans f) = (unwrap t value).mapSpans f := by
  cases value with
  | call span callee arguments =>
      rw [Node.mapSpans, unwrap, unwrap, h.resolveValueType?_eq]
      cases t.resolveValueType? callee with
      | none => rfl
      | some type =>
          cases arguments with
          | nil => rfl
          | cons first rest => rfl
  | _ => rfl

theorem placed_of_unwrap {value inner : Node} {type : Option String} (hvalue : value.Placed r f)
    (h : unwrap t value = .value inner type) : inner.Placed r f := by
  unfold unwrap at h
  split at h
  · split at h
    · cases h
      exact hvalue
    · split at h
      · cases h
      · rename_i first rest
        cases h
        exact hvalue.argument List.mem_cons_self
  · cases h
    exact hvalue

theorem isNested_mapSpans (f : Span → Span) (n : Node) : isNested (n.mapSpans f) = isNested n := by
  cases n with
  | plain form => cases form <;> rfl
  | _ => rfl

theorem isKeyframes_eq (h : t.Parallel r u) (f : Span → Span) (value : Node) :
    isKeyframes u (value.mapSpans f) = isKeyframes t value := by
  cases value with
  | call span callee => rw [Node.mapSpans, isKeyframes, isKeyframes, styleCall?_eq h]
  | _ => rfl

theorem preview?_eq (hq : r.SameBytes q.base base') (site : Style.Site) {s s' : Span}
    (hplace : r.place s s') {a b : Evaluation} (h : Evaluation.Alike r a b) :
    preview? { q with base := base' } site s' b = preview? q site s a := by
  rw [preview?, preview?, Style.preview?_eq hq.strict h]
  simp only [hq.rangeOfSpan_eq q.document hplace]

theorem enterPair_parallel (hq : r.SameBytes q.base base') {key value : Node}
    (hkey : key.Placed r f) (hvalue : value.Placed r f) (place : Place)
    {m n : Notes (Option Hover)} (h : m.Parallel r n) :
    (enterPair { q with base := base' } (key.mapSpans f) (value.mapSpans f) place n).1 =
        (enterPair q key value place m).1 ∧
      (enterPair q key value place m).2.Parallel r
        (enterPair { q with base := base' } (key.mapSpans f) (value.mapSpans f) place n).2 := by
  have ht := h.tracker
  have htouches := touches_eq hq hkey.self
  unfold enterPair
  simp only [ht.propertyKey?_eq hq.strict hkey, unwrap_eq ht, isKeyframes_eq ht, htouches]
  cases place.call with
  | none => exact ⟨rfl, h⟩
  | some call =>
      cases m.tracker.propertyKey? key with
      | none => exact ⟨rfl, h⟩
      | some name =>
          rcases hunwrap : unwrap m.tracker value with - | ⟨inner, type⟩
          · exact ⟨rfl, h⟩
          · have hinner := ht.evaluate hq.strict (placed_of_unwrap hvalue hunwrap)
            simp only [Unwrapped.mapSpans, isNested_mapSpans]
            split
            · exact ⟨rfl, h⟩
            · split
              · exact ⟨rfl, h⟩
              · split
                · exact ⟨rfl, ht, h.failure, h.visited, preview?_eq hq _ hkey.self hinner⟩
                · exact ⟨rfl, h⟩

theorem looksAlike (hq : r.SameBytes q.base base') :
    LooksAlike r f (look q) (look { q with base := base' }) := by
  intro node parent place m n hnode _ h
  cases node with
  | call span callee => exact ⟨enterCall_eq h.tracker f callee parent place, h⟩
  | pair kind key value =>
      cases kind with
      | property =>
          exact enterPair_parallel hq hnode.key hnode.value place h
      | _ => exact ⟨rfl, h⟩
  | _ => exact ⟨rfl, h⟩

end Hover

namespace Completing

variable {q : Query}

theorem nears_eq (hq : r.SameBytes q.base base') {s s' : Span} (hplace : r.place s s') :
    Query.nears { q with base := base' } s' = q.nears s := by
  simp only [Query.nears, hq.rangeOfSpan_eq q.document hplace]

theorem enterCall_eq (h : t.Parallel r u) (f : Span → Span) (callee : Node) (place : Place) :
    enterCall u (callee.mapSpans f) place = enterCall t callee place := by
  rw [enterCall, enterCall, styleCall?_eq h, h.resolveCallee?_eq]

theorem isObject_mapSpans (f : Span → Span) (n : Node) : isObject (n.mapSpans f) = isObject n := by
  cases n <;> rfl

theorem enterPair_eq (hstrict : ¬r.loose) (h : t.Parallel r u) {key : Node}
    (hkey : key.Placed r f) (value : Node) (place : Place) :
    enterPair u (key.mapSpans f) (value.mapSpans f) place = enterPair t key value place := by
  simp only [enterPair, isObject_mapSpans, h.propertyKey?_eq hstrict hkey]

/-- Equal spans stay equal, so a key stays a key. -/
theorem isKey_eq (hq : r.SameBytes q.base base') {s s' : Span} (hplace : r.place s s')
    {parent : Option Node} (hparent : ∀ p ∈ parent, p.Placed r f) :
    isKey s' (parent.map (Node.mapSpans f)) = isKey s parent := by
  cases parent with
  | none => rfl
  | some parent =>
      cases parent with
      | pair kind key value =>
          cases kind with
          | property =>
              have hkey : key.Placed r f := (hparent _ rfl).key
              simp only [Option.map_some, Node.mapSpans, isKey, hq.same hkey.self hplace]
          | _ => rfl
      | _ => rfl

theorem enterLiteral_parallel (hq : r.SameBytes q.base base') {s s' : Span}
    (hplace : r.place s s') (value : String) (place : Place)
    {m n : Notes (List Completion.Suggestion)} (h : m.Parallel r n) :
    (enterLiteral { q with base := base' } s' value place n).1 =
        (enterLiteral q s value place m).1 ∧
      (enterLiteral q s value place m).2.Parallel r
        (enterLiteral { q with base := base' } s' value place n).2 := by
  have hrange := hq.rangeOfSpan_eq q.document hplace
  have hsuggest : suggest { q with base := base' } = suggest q := rfl
  unfold enterLiteral
  simp only [hrange, hsuggest]
  split
  · exact ⟨rfl, h⟩
  · split
    · exact ⟨rfl, h⟩
    · split
      · exact ⟨rfl, h.tracker, h.failure, h.visited, rfl⟩
      · exact ⟨rfl, h.tracker, rfl, h.visited, h.found⟩

theorem looksAlike (hq : r.SameBytes q.base base') :
    LooksAlike r f (look q) (look { q with base := base' }) := by
  intro node parent place m n hnode hparent h
  cases node with
  | call span callee => exact ⟨enterCall_eq h.tracker f callee place, h⟩
  | pair kind key value =>
      cases kind with
      | property =>
          exact ⟨enterPair_eq hq.strict h.tracker hnode.key value place, h⟩
      | _ => exact ⟨rfl, h⟩
  | string span value =>
      have hplace : r.place span (f span) := hnode.self
      have hliteral := enterLiteral_parallel hq hplace value place h
      rw [Node.mapSpans, look, look, isKey_eq hq hplace hparent]
      split
      · exact ⟨rfl, h⟩
      · exact hliteral
  | _ => exact ⟨rfl, h⟩

end Completing

namespace Coloring

variable {q : Query} {a b : Evaluation}

theorem swatch?_eq (hq : r.SameBytes q.base base') (text : String) {s s' : Span}
    (hplace : r.place s s') : swatch? { q with base := base' } text s' = swatch? q text s := by
  simp only [swatch?, hq.start hplace, hq.stop hplace]

theorem ofEvaluation?_eq (hq : r.SameBytes q.base base') (h : Evaluation.Alike r a b) :
    ofEvaluation? { q with base := base' } b = ofEvaluation? q a := by
  cases h with
  | opened hloose => exact absurd hloose hq.strict
  | dynamic => rfl
  | reference => rfl
  | @known v w s s' hvalue hplace =>
      cases hvalue with
      | array => rfl
      | object => rfl
      | simple =>
          cases v with
          | string text => exact swatch?_eq hq text hplace
          | _ => rfl

/-- Related lists yield the same where related items do. -/
theorem filterMap_eq_of_forall₂ {γ δ ε : Type} {R : γ → δ → Prop} {g : γ → Option ε}
    {g' : δ → Option ε} (hitem : ∀ x y, R x y → g' y = g x) {xs : List γ} {ys : List δ}
    (h : List.Forall₂ R xs ys) : ys.filterMap g' = xs.filterMap g := by
  induction h with
  | nil => rfl
  | cons hxy _ ih => rw [List.filterMap_cons, List.filterMap_cons, hitem _ _ hxy, ih]

theorem ofValue_eq (hq : r.SameBytes q.base base') (h : Evaluation.Alike r a b) :
    ofValue { q with base := base' } b = ofValue q a := by
  have hsingle := congrArg Option.toList (ofEvaluation?_eq hq h)
  cases h with
  | opened hloose => exact absurd hloose hq.strict
  | dynamic => rfl
  | reference => rfl
  | @known v w s s' hvalue hplace =>
      cases hvalue with
      | object => rfl
      | array hitems =>
          exact filterMap_eq_of_forall₂ (R := Evaluation.Alike r)
            (fun _ _ => ofEvaluation?_eq hq) hitems
      | simple hsimple =>
          cases v with
          | array => cases hsimple
          | _ => exact hsingle

theorem mayHoldColor_mapSpans (f : Span → Span) (n : Node) :
    mayHoldColor (n.mapSpans f) = mayHoldColor n := by
  cases n <;> rfl

/-- What a value is taken for, with other spans. -/
def Reading.mapSpans (f : Span → Span) : Reading → Reading
  | .foreign => .foreign
  | .nothing => .nothing
  | .expression node => .expression (node.mapSpans f)

theorem readingOf_eq (h : t.Parallel r u) (f : Span → Span) (value : Node) :
    readingOf u (value.mapSpans f) = (readingOf t value).mapSpans f := by
  cases value with
  | call span callee arguments =>
      unfold readingOf
      simp only [Node.mapSpans, h.resolveValueType?_eq]
      cases t.resolveValueType? callee with
      | none => rfl
      | some type =>
          simp only
          split
          · rfl
          · cases arguments with
            | nil => rfl
            | cons first rest =>
                simp only [Node.mapSpansArguments, mayHoldColor_mapSpans]
                split <;> rfl
  | _ => rfl

theorem placed_of_readingOf {value n : Node} (hvalue : value.Placed r f)
    (h : readingOf t value = .expression n) : n.Placed r f := by
  unfold readingOf at h
  split at h
  · split at h
    · cases h
      exact hvalue
    · split at h
      · cases h
      · split at h
        · cases h
        · rename_i first rest
          cases h
          split
          · exact hvalue.argument List.mem_cons_self
          · exact hvalue
  · split at h
    · cases h
      exact hvalue
    · cases h

theorem isStyleType_eq (h : t.Parallel r u) (f : Span → Span) (n : Node) :
    isStyleType u (n.mapSpans f) = isStyleType t n := by
  cases n with
  | identifier span name => rw [Node.mapSpans, isStyleType, isStyleType, h.member?_eq]
  | qualifiedName span left right =>
      rw [Node.mapSpans, isStyleType, isStyleType, Node.identifierName?_mapSpans,
        Node.identifierName?_mapSpans, funext h.isNamespace_eq]
  | _ => rfl

/-- What each node of a list contributes, the list contributes. -/
theorem flatMap_mapSpansAll {γ : Type} {ns : List Node} {g g' : Node → List γ}
    (h : ∀ n ∈ ns, g' (n.mapSpans f) = g n) :
    (Node.mapSpansAll f ns).flatMap g' = ns.flatMap g := by
  rw [Node.mapSpansAll_eq_map, List.flatMap_map]
  exact List.flatMap_congr h

theorem ofLiteralType_eq (hq : r.SameBytes q.base base') (h : t.Parallel r u) {n : Node}
    (hn : n.Placed r f) :
    ofLiteralType { q with base := base' } u (n.mapSpans f) = ofLiteralType q t n := by
  cases n with
  | literalType span literal =>
      have hliteral : literal.Placed r f := hn.child (c := (.whole .literal, literal))
        List.mem_cons_self
      have hswatch := congrArg Option.toList
        (ofEvaluation?_eq hq (h.evaluate hq.strict hliteral))
      cases literal with
      | string => exact hswatch
      | template => exact hswatch
      | _ => rfl
  | _ => rfl

theorem ofType_eq (hq : r.SameBytes q.base base') (h : t.Parallel r u) {n : Node}
    (hn : n.Placed r f) : ofType { q with base := base' } u (n.mapSpans f) = ofType q t n := by
  have hliteral := ofLiteralType_eq hq h hn
  cases n with
  | unionType span types =>
      apply flatMap_mapSpansAll
      intro type hmem
      obtain ⟨ref, hc⟩ := Node.exists_mem_listChildren hmem
      exact ofLiteralType_eq hq h (hn.child hc)
  | _ => exact hliteral

theorem ofParam_eq (hq : r.SameBytes q.base base') (h : t.Parallel r u) {n : Node}
    (hn : n.Placed r f) : ofParam { q with base := base' } u (n.mapSpans f) = ofParam q t n := by
  cases n with
  | typeLiteral span members =>
      apply flatMap_mapSpansAll
      intro member hmem
      obtain ⟨ref, hc⟩ := Node.exists_mem_listChildren hmem
      have hmember : member.Placed r f := hn.child hc
      cases member with
      | propertySignature span key declared =>
          cases declared with
          | none => rfl
          | some declared =>
              cases declared with
              | declaredType span annotated =>
                  have hdeclared := hmember.child (c := (.whole .declaredType, _))
                    (List.mem_append_right _ List.mem_cons_self)
                  exact ofType_eq hq h
                    (hdeclared.child (c := (.whole .declaredType, annotated)) List.mem_cons_self)
              | _ => rfl
      | _ => rfl
  | _ => rfl

theorem ofReference_eq (hq : r.SameBytes q.base base') (h : t.Parallel r u) (name : Node)
    {params : Option Node} (hparams : ∀ n, params = some n → n.Placed r f) :
    ofReference { q with base := base' } u (name.mapSpans f) (Node.mapSpansOption f params) =
      ofReference q t name params := by
  cases params with
  | none => rfl
  | some n =>
      have hn := hparams n rfl
      cases n with
      | typeArguments span params =>
          rw [Node.mapSpansOption, Node.mapSpans, ofReference, ofReference, isStyleType_eq h]
          split
          · apply flatMap_mapSpansAll
            intro param hmem
            obtain ⟨ref, hc⟩ := Node.exists_mem_listChildren hmem
            exact ofParam_eq hq h (hn.child hc)
          · rfl
      | _ => rfl

theorem looksAlike (hq : r.SameBytes q.base base') :
    LooksAlike r f (look q) (look { q with base := base' }) := by
  intro node parent call m n hnode _ h
  cases node with
  | call span callee =>
      simp only [Node.mapSpans, look, styleCall?_eq h.tracker]
      split <;> exact ⟨rfl, h⟩
  | typeReference span name params =>
      have hparams : ∀ p, params = some p → p.Placed r f := by
        rintro p rfl
        exact hnode.child (c := (.whole .typeParams, p))
          (List.mem_append_right _ List.mem_cons_self)
      have hswatches := ofReference_eq hq h.tracker name hparams
      refine ⟨rfl, h.tracker, h.failure, h.visited, ?_⟩
      simp only [Node.mapSpans, look, hswatches, h.found]
  | pair kind key value =>
      cases kind with
      | property =>
          simp only [Node.mapSpans, look, readingOf_eq h.tracker]
          split
          · exact ⟨rfl, h⟩
          · rcases hreading : readingOf m.tracker value with - | - | inner
            · exact ⟨rfl, h⟩
            · exact ⟨rfl, h⟩
            · have hinner := h.tracker.evaluate hq.strict (placed_of_readingOf hnode.value hreading)
              refine ⟨rfl, h.tracker, h.failure, h.visited, ?_⟩
              simp only [Reading.mapSpans, ofValue_eq hq hinner, h.found]
      | _ => exact ⟨rfl, h⟩
  | _ => exact ⟨rfl, h⟩

end Coloring

end Assist

end StyleSense
