/-
# Each literal is one swatch

A swatch stands between the quotes of a literal that was evaluated. A value that
is written in place shows only literals within the sight of its reader, and each
of these at most once, and no literal is in sight of two readers. A value that
takes a list from a constant shows literals where the constant is written: these
are counted, for a list that is used twice is shown twice. Where each is used
once, no two swatches have the same range.
-/

import Mathlib.Data.List.Perm.Subperm
import StyleSense.Proofs.Assist.Readings
import StyleSense.Proofs.Service.Coherence

namespace StyleSense.Assist.Coloring

open StyleSense.Text StyleSense.Visitor

variable {q : Query} {t : Tracker} {n : Node} {place : Nat}

/-- Whether a node takes up any of the document. -/
def hasRoom (q : Query) (n : Node) : Bool :=
  Document.localByte n.span.start q.base < Document.localByte n.span.stop q.base

/-- Where nodes start that take up some of the document. -/
def starts (q : Query) (ns : List Node) : List Nat :=
  (ns.filter (hasRoom q)).map fun n => Document.localByte n.span.start q.base

/-- The places of the swatches that an element contributes to a list. -/
def itemPlaces (q : Query) (t : Tracker) (element : Argument Node) : List Nat :=
  (t.argumentItems element).filterMap (place? q)

/-- Values whose colors are written where the value is. -/
inductive InPlace (q : Query) (t : Tracker) : Node → Prop
  /-- No color is shown. -/
  | silent {n : Node} (h : places q (t.evaluate n) = []) : InPlace q t n
  /-- One color is shown, at a literal of the value. -/
  | own {n : Node} {place : Nat} (h : places q (t.evaluate n) = [place])
      (hstands : place ∈ starts q (exposed n)) : InPlace q t n
  /-- A list, each of whose elements either shows no color or is in place. -/
  | array {span : Span} {elements : List (Option (Argument Node))}
      (h : ∀ element, some element ∈ elements → itemPlaces q t element ≠ [] →
        InPlace q t element.expression) : InPlace q t (.array span elements)
  /-- A list of fallbacks, alike. -/
  | fallbacks {span : Span} {callee : Node} {arguments : List (Argument Node)}
      {typeArgs : Option Node} (hcallee : t.resolveCallee? callee = some .firstThatWorks)
      (h : ∀ argument ∈ arguments, itemPlaces q t argument ≠ [] →
        InPlace q t argument.expression) : InPlace q t (.call span callee arguments typeArgs)
  /-- A value that stands for one of its children. -/
  | through {n : Node} {c : ChildRef × Node} (hc : c ∈ n.children)
      (heval : t.evaluate n = t.evaluate c.2) (h : InPlace q t c.2) : InPlace q t n

theorem starts_append (q : Query) (a b : List Node) :
    starts q (a ++ b) = starts q a ++ starts q b := by
  rw [starts, List.filter_append, List.map_append]
  rfl

theorem starts_sublist {a b : List Node} (h : a.Sublist b) : (starts q a).Sublist (starts q b) :=
  (h.filter _).map _

theorem starts_perm {a b : List Node} (h : a.Perm b) : (starts q a).Perm (starts q b) :=
  (h.filter _).map _

/-- Literals that do not overlap start at different places. -/
theorem nodup_starts {ns : List Node} (h : ns.Pairwise fun a b => ¬a.span.Overlaps b.span) :
    (starts q ns).Nodup := by
  rw [starts, List.Nodup, List.pairwise_map, List.pairwise_filter]
  refine h.imp fun {a b} hapart ha hb heq => hapart ?_
  rw [hasRoom, decide_eq_true_eq] at ha hb
  rw [Document.localByte_eq, Document.localByte_eq] at ha hb heq
  rw [Span.Overlaps]
  omega

/-- A literal that is a text shows itself, if anything. -/
theorem inPlace_of_evaluate_eq {text : String} (hliteral : n.isLiteral = true)
    (h : t.evaluate n = .known (.string text) n.span) : InPlace q t n := by
  have hplaces : places q (t.evaluate n) =
      ((swatch? q text n.span).map fun _ => Document.localByte n.span.start q.base).toList := by
    rw [h]
    rfl
  cases hs : swatch? q text n.span with
  | none => exact .silent (by rw [hplaces, hs]; rfl)
  | some s =>
      obtain ⟨-, hroom, -⟩ := swatch?_eq_some hs
      have hexposed : n ∈ (exposed n).filter (hasRoom q) := List.mem_filter.2
        ⟨mem_exposed_of_isLiteral hliteral, decide_eq_true (Nat.lt_of_succ_lt hroom)⟩
      exact .own (by rw [hplaces, hs]; rfl) (List.mem_map_of_mem hexposed)

/-- Literals are in place wherever they are read. -/
theorem inPlace_of_isLiteral (h : n.isLiteral = true) : InPlace q t n := by
  cases n with
  | string span text => exact inPlace_of_evaluate_eq rfl rfl
  | template span quasis expressions types =>
      have heval := t.evaluate_template span quasis expressions types
      cases htext : templateText? quasis (t.evaluateAll expressions) with
      | none => exact .silent (by rw [heval, htext]; rfl)
      | some text => exact inPlace_of_evaluate_eq rfl (by rw [heval, htext]; rfl)
  | _ => cases h

/-- An element shows no more than its expression does. -/
theorem itemPlaces_sublist (q : Query) (t : Tracker) (element : Argument Node) :
    (itemPlaces q t element).Sublist (places q (t.evaluate element.expression)) := by
  obtain ⟨dots, expression⟩ := element
  rw [itemPlaces, Tracker.argumentItems]
  generalize t.evaluate expression = value
  cases dots with
  | none =>
      have hsingle : [value].filterMap (place? q) = (place? q value).toList := by
        rw [List.filterMap_cons]
        cases place? q value <;> rfl
      show ([value].filterMap (place? q)).Sublist _
      rw [hsingle]
      cases value with
      | known value span =>
          cases value with
          | array items => exact List.nil_sublist _
          | _ => exact List.Sublist.refl _
      | _ => exact List.Sublist.refl _
  | some dots =>
      show ((spreadElements value).filterMap (place? q)).Sublist _
      cases value with
      | known value span =>
          cases value with
          | array items => exact List.Sublist.refl _
          | _ => exact List.nil_sublist _
      | _ => exact List.nil_sublist _

/-- Elements that show only what they expose make a list that does. -/
theorem elements_subperm {elements : List (Option (Argument Node))}
    (h : ∀ element, some element ∈ elements →
      (itemPlaces q t element).Subperm (starts q (exposed element.expression))) :
    ((t.evaluateElements elements).filterMap (place? q)).Subperm
      (starts q ((elements.reduceOption.map Argument.expression).flatMap exposed)) := by
  induction elements with
  | nil => exact List.nil_subperm
  | cons element elements ih =>
      have hrest := ih fun other hother => h other (List.mem_cons_of_mem _ hother)
      cases element with
      | none => exact hrest
      | some element =>
          rw [Tracker.evaluateElements_some, List.filterMap_append,
            List.reduceOption_cons_of_some, List.map_cons, List.flatMap_cons, starts_append]
          exact (h element List.mem_cons_self).append hrest

/-- Arguments are elements without holes. -/
theorem arguments_subperm {arguments : List (Argument Node)}
    (h : ∀ argument ∈ arguments,
      (itemPlaces q t argument).Subperm (starts q (exposed argument.expression))) :
    ((t.evaluateArguments arguments).filterMap (place? q)).Subperm
      (starts q ((arguments.map Argument.expression).flatMap exposed)) := by
  have hall : (arguments.map some).reduceOption = arguments :=
    (Node.reduceOption_map_some id arguments).trans (List.map_id arguments)
  have helements : ((t.evaluateElements (arguments.map some)).filterMap (place? q)).Subperm
      (starts q (((arguments.map some).reduceOption.map Argument.expression).flatMap exposed)) :=
    elements_subperm fun argument hmem => h argument (by simpa using hmem)
  rwa [← Tracker.evaluateArguments_eq, hall] at helements

/-- Readers have no value. -/
theorem places_of_isReader (h : isReader n = true) : places q (t.evaluate n) = [] := by
  unfold isReader at h
  split at h
  · rfl
  · rfl
  · cases h

/-- A value that is written in place shows literals that it exposes, each at most
once. -/
theorem InPlace.places_subperm (h : InPlace q t n) :
    (places q (t.evaluate n)).Subperm (starts q (exposed n)) := by
  have hitem {element : Argument Node}
      (h : itemPlaces q t element ≠ [] → (places q (t.evaluate element.expression)).Subperm
        (starts q (exposed element.expression))) :
      (itemPlaces q t element).Subperm (starts q (exposed element.expression)) := by
    by_cases hshows : itemPlaces q t element = []
    · rw [hshows]
      exact List.nil_subperm
    · exact (itemPlaces_sublist q t element).subperm.trans (h hshows)
  -- a list shows what its elements do, and these expose different literals
  induction h with
  | silent h =>
      rw [h]
      exact List.nil_subperm
  | own h hstands =>
      rw [h]
      exact List.singleton_subperm_iff.2 hstands
  | @array span elements _ ih =>
      rw [exposed_eq rfl rfl, Node.children, Node.map_snd_elementChildren]
      exact elements_subperm fun element hmem => hitem (ih element hmem)
  | @fallbacks span callee arguments typeArgs hcallee _ ih =>
      have harguments := arguments_subperm fun argument hmem => hitem (ih argument hmem)
      have hexposed := starts_sublist (q := q) (exposed_arguments span callee arguments typeArgs)
      rw [Tracker.evaluate_call, if_pos hcallee, places, List.filterMap_reverse]
      exact ((List.reverse_perm _).subperm.trans harguments).trans hexposed.subperm
  | @through n c hc heval _ ih =>
      cases hreader : isReader n with
      | true =>
          rw [places_of_isReader hreader]
          exact List.nil_subperm
      | false =>
          rw [heval]
          exact ih.trans (starts_sublist (exposed_child hreader hc)).subperm

/-- All that a walk reads, in its order, each with what is known where it is
read. -/
def readings (log : List (Step (Notes (List Swatch)) (Option CallKind))) :
    List (Tracker × Node) :=
  log.flatMap fun s => (readBy s).map fun n => (s.memory.tracker, n)

/-- The places of the swatches of what is read. -/
def placesOf (q : Query) (r : Tracker × Node) : List Nat :=
  places q (r.1.evaluate r.2)

/-- Each literal is used once: what is not written in place shows literals that
nothing else shows, and each of them once. -/
structure UsedOnce (q : Query) (rs : List (Tracker × Node)) : Prop where
  once : ∀ r ∈ rs, InPlace q r.1 r.2 ∨ (placesOf q r).Nodup
  alone : rs.Pairwise fun a b => InPlace q a.1 a.2 ∧ InPlace q b.1 b.2 ∨
    ∀ place ∈ placesOf q a, place ∉ placesOf q b

theorem placesOf_subperm {rs : List (Tracker × Node)} (h : ∀ r ∈ rs, InPlace q r.1 r.2) :
    (rs.flatMap (placesOf q)).Subperm (starts q (rs.flatMap fun r => exposed r.2)) := by
  induction rs with
  | nil => exact List.nil_subperm
  | cons r rs ih =>
      rw [List.flatMap_cons, List.flatMap_cons, starts_append]
      exact (h r List.mem_cons_self).places_subperm.append
        (ih fun other hother => h other (List.mem_cons_of_mem _ hother))

/-- What is read exposes nodes in sight of those that were entered. -/
theorem exposed_readings (log : List (Step (Notes (List Swatch)) (Option CallKind))) :
    ((readings log).flatMap fun r => exposed r.2).Sublist ((entered log).flatMap inSight) := by
  induction log with
  | nil => exact List.nil_sublist _
  | cons s log ih =>
      have hread : ((readBy s).flatMap exposed).Sublist ((entered [s]).flatMap inSight) := by
        rw [readBy]
        split
        next henter =>
          rw [show entered [s] = [s.node] by simp [entered, henter], List.flatMap_singleton]
          exact reads_inSight s.memory.tracker s.state s.node
        · exact List.nil_sublist _
      rw [← List.singleton_append, entered_append, List.flatMap_append, readings,
        List.flatMap_append, List.flatMap_singleton, List.flatMap_append, List.flatMap_map]
      exact hread.append ih

/-- Values in place show different literals, and the others were counted. -/
theorem UsedOnce.nodup {rs : List (Tracker × Node)} (h : UsedOnce q rs)
    (hexposed : (starts q (rs.flatMap fun r => exposed r.2)).Nodup) :
    (rs.flatMap (placesOf q)).Nodup := by
  classical
  let inPlace := rs.filter fun r => decide (InPlace q r.1 r.2)
  have hinPlace : (inPlace.flatMap (placesOf q)).Nodup := by
    have hsubperm : (inPlace.flatMap (placesOf q)).Subperm
        (starts q (inPlace.flatMap fun r => exposed r.2)) :=
      placesOf_subperm fun r hr => of_decide_eq_true (List.mem_filter.1 hr).2
    have hamong : (inPlace.flatMap fun r => exposed r.2).Sublist
        (rs.flatMap fun r => exposed r.2) := List.filter_sublist.flatMap _
    obtain ⟨shown, hperm, hsublist⟩ := hsubperm
    exact hperm.nodup_iff.1 (hexposed.sublist (hsublist.trans (starts_sublist hamong)))
  rw [List.nodup_flatMap] at hinPlace ⊢
  have hpairs := List.pairwise_filter.1 hinPlace.2
  refine ⟨fun r hr => (h.once r hr).elim (fun hr' => ?_) id, ?_⟩
  · exact hinPlace.1 r (List.mem_filter.2 ⟨hr, decide_eq_true hr'⟩)
  · refine (h.alone.and hpairs).imp fun {a b} ⟨halone, hboth⟩ => ?_
    rcases halone with ⟨ha, hb⟩ | hdisjoint
    · exact hboth (decide_eq_true ha) (decide_eq_true hb)
    · exact fun place ha hb => hdisjoint place ha hb

/-- The swatches that a walk finds start behind the places of what it reads. -/
theorem starts_flatMap_swatchesOf (q : Query)
    (log : List (Step (Notes (List Swatch)) (Option CallKind))) :
    (log.flatMap fun s => swatchesOf q s.memory.tracker (readBy s)).map (·.range.start) =
      ((readings log).flatMap (placesOf q)).map fun place =>
        q.document.positionOfByte (place + 1) := by
  simp only [swatchesOf, readings, placesOf, List.map_flatMap, starts_ofValue, List.flatMap_assoc,
    List.flatMap_map]

/-- Swatches at different places start at different positions. -/
theorem nodup_positions {places : List Nat} (h : places.Nodup) (hopens : ∀ p ∈ places, Opens q p) :
    (places.map fun place => q.document.positionOfByte (place + 1)).Nodup := by
  refine h.map_on fun a ha b hb heq => ?_
  have hopensA := hopens a ha
  have hopensB := hopens b hb
  exact hopensA.ascii.inj hopensB.ascii (Nat.lt_of_succ_lt hopensA.room)
    (Nat.lt_of_succ_lt hopensB.room) heq

/-- The main statement: swatches are answered by where they start and, if no two
literals of the tree overlap and each that is not shown in place is used once, no
two have the same range. -/
theorem pairwise_range_ne {document : Document} {tree : Node} {tracker : Tracker} {token : Token}
    {swatches : List Swatch}
    (h : swatches? document tree tracker token = .ok (some swatches)) :
    (swatches.Pairwise fun a b => startsNoLater a b = true) ∧
      ((tree.literals.Pairwise fun a b => ¬a.span.Overlaps b.span) →
        UsedOnce ⟨document, spanBase document tree⟩
          (readings ((searching document tree token).steps tree none none (.start tracker []))) →
        swatches.Pairwise fun a b => a.range ≠ b.range) := by
  refine ⟨Service.pairwise_swatches? h, fun hapart hused => ?_⟩
  let q : Query := ⟨document, spanBase document tree⟩
  let log := (searching document tree token).steps tree none none (.start tracker [])
  have hfound : (log.flatMap fun s => swatchesOf q s.memory.tracker (readBy s)).mergeSort
      startsNoLater = swatches := by
    rw [swatches?_eq_answer] at h
    have hwalk := found_visit q token (fun _ => false) tree none none (.start tracker [])
    rw [← Notes.found_of_finish h]
    exact congrArg (·.mergeSort startsNoLater) hwalk.symm
  -- each literal that a value exposes is in sight of a node that is entered
  have hexposed : (starts q ((readings log).flatMap fun r => exposed r.2)).Nodup := by
    have hentered : ((entered log).flatMap inSight).Sublist (tree.preorder.flatMap inSight) :=
      (entered_steps (searching document tree token) tree none none (.start tracker [])).flatMap _
    have hseen := hentered.trans (List.sublist_append_right (exposed tree) _)
    have hliterals := (starts_perm (q := q) (literals_perm tree)).nodup_iff.1 (nodup_starts hapart)
    exact hliterals.sublist (starts_sublist ((exposed_readings log).trans hseen))
  have hstarts : (swatches.map (·.range.start)).Nodup := by
    rw [← hfound, ((List.mergeSort_perm _ _).map _).nodup_iff, starts_flatMap_swatchesOf]
    refine nodup_positions (UsedOnce.nodup hused hexposed) fun place hmem => ?_
    obtain ⟨r, -, hr⟩ := List.mem_flatMap.1 hmem
    exact opens_of_mem_places hr
  exact (List.pairwise_map.1 hstarts).imp fun hne heq => hne (congrArg Text.Range.start heq)

/-- At an entry, its value is read. -/
theorem readingOf_of_mem_readBy {s : Step (Notes (List Swatch)) (Option CallKind)}
    {key value : Node} (hnode : s.node = .pair .property key value) (h : n ∈ readBy s) :
    readingOf s.memory.tracker value = .expression n := by
  rw [readBy, hnode] at h
  split at h
  · rw [reads] at h
    split at h
    · cases h
    · split at h
      next node hreading => rw [hreading, List.mem_singleton.1 h]
      · cases h
  · cases h

/-- What a walk has found is answered, if it is in order already. -/
theorem exists_swatches {document : Document} {tree : Node} {tracker : Tracker} {token : Token}
    {ranges : List Text.Range}
    (hanswer : (swatches? document tree tracker token).toOption.join.isSome = true)
    (hranges : ((searching document tree token).walk tree none
      (.start tracker [])).2.found.map (·.range) = ranges)
    (hsorted : ranges.Pairwise fun a b => a.start.notAfter b.start = true) :
    ∃ swatches, swatches? document tree tracker token = .ok (some swatches) ∧
      swatches.map (·.range) = ranges := by
  obtain ⟨swatches, hswatches⟩ : ∃ swatches,
      swatches? document tree tracker token = .ok (some swatches) := by
    rcases hshown : swatches? document tree tracker token with failure | - | swatches
    · rw [hshown] at hanswer
      cases hanswer
    · rw [hshown] at hanswer
      cases hanswer
    · exact ⟨swatches, rfl⟩
  refine ⟨swatches, hswatches, ?_⟩
  rw [swatches?_eq_answer] at hswatches
  rw [← hranges, List.pairwise_map] at hsorted
  rw [← hranges, ← Notes.found_of_finish hswatches]
  have hordered : (((searching document tree token).walk tree none
      (.start tracker [])).2.found).Pairwise fun a b => startsNoLater a b = true := hsorted
  rw [List.mergeSort_of_pairwise hordered]

/-- The tree of `const red=["#f00"];stylex.create({a:{color:........,fill:........}})`,
given the nodes at the dots. -/
def palette (color fill : Node) : Node :=
  let constant : Node := .array ⟨11, 19⟩ [some ⟨none, .string ⟨12, 18⟩ "#f00"⟩]
  let entry (span : Span) (key : String) (value : Node) : Node :=
    .pair .property (.identifier span key none) value
  let style : Node := .object ⟨37, 67⟩ [entry ⟨38, 43⟩ "color" color, entry ⟨53, 57⟩ "fill" fill]
  let callee : Node :=
    .member ⟨20, 33⟩ (.identifier ⟨20, 26⟩ "stylex" none) (.identifier ⟨27, 33⟩ "create" none)
  let call : Node :=
    .call ⟨20, 69⟩ callee [⟨none, .object ⟨34, 68⟩ [entry ⟨35, 36⟩ "a" style]⟩] none
  .program .module ⟨1, 69⟩
    [.declaration ⟨1, 20⟩ "const"
      [.declarator ⟨7, 19⟩ (.identifier ⟨7, 10⟩ "red" none) (some constant)],
    .plain .expressionStatement ⟨20, 69⟩ [.one (some call)] []]

/-- The list of the constant is used once, and the other one stands where it is
shown. -/
theorem pairwise_range_ne_palette :
    let tree := palette
      (.array ⟨44, 52⟩ [some ⟨some ⟨45, 48⟩, .identifier ⟨48, 51⟩ "red" none⟩])
      (.array ⟨58, 66⟩ [some ⟨none, .string ⟨59, 65⟩ "#f00"⟩])
    let document : Document := .new "a.js" "javascript" 1
      "const red=[\"#f00\"];stylex.create(\x7ba:\x7bcolor:[...red],fill:[\"#f00\"]\x7d\x7d)"
    ∃ swatches, swatches? document tree .new .never = .ok (some swatches) ∧
      swatches.map (·.range) = [⟨⟨0, 12⟩, ⟨0, 16⟩⟩, ⟨⟨0, 59⟩, ⟨0, 63⟩⟩] ∧
      (tree.literals.Pairwise fun a b => ¬a.span.Overlaps b.span) ∧
      UsedOnce ⟨document, spanBase document tree⟩
        (readings ((searching document tree .never).steps tree none none (.start .new []))) ∧
      swatches.Pairwise fun a b => a.range ≠ b.range := by
  intro tree document
  obtain ⟨swatches, hswatches, hranges⟩ :
      ∃ swatches, swatches? document tree .new .never = .ok (some swatches) ∧
        swatches.map (·.range) = [⟨⟨0, 12⟩, ⟨0, 16⟩⟩, ⟨⟨0, 59⟩, ⟨0, 63⟩⟩] :=
    exists_swatches (by decide +kernel) (by decide +kernel) (by decide)
  have hapart : tree.literals.Pairwise fun a b => ¬a.span.Overlaps b.span := by decide +kernel
  let q : Query := ⟨document, spanBase document tree⟩
  let log := (searching document tree .never).steps tree none none (.start .new [])
  have hpaths : ∀ s ∈ log, (readBy s).isEmpty = true ∨
      s.path = [1, 0, 1, 0, 1, 0] ∨ s.path = [1, 0, 1, 0, 1, 1] := by decide +kernel
  have hnodup : ∀ r ∈ readings log, (placesOf q r).Nodup := by decide +kernel
  have hdisjoint : (readings log).Pairwise fun a b =>
      ∀ place ∈ placesOf q a, place ∉ placesOf q b := by decide +kernel
  have honce : ∀ r ∈ readings log, InPlace q r.1 r.2 ∨ (placesOf q r).Nodup := by
    intro r hr
    obtain ⟨s, hs, hread⟩ := List.mem_flatMap.1 hr
    obtain ⟨n, hn, rfl⟩ := List.mem_map.1 hread
    have hnode := (course_visit (searching document tree .never) tree none none
      (.start .new [])).node_eq (List.mem_map_of_mem hs)
    rcases hpaths s hs with hnone | hpath | hpath
    · rw [List.isEmpty_iff.1 hnone] at hn
      cases hn
    · exact .inr (hnodup _ hr)
    · cases readingOf_of_mem_readBy (Option.some.inj (hpath ▸ hnode)).symm hn
      refine .inl (.array fun element hmem _ => ?_)
      cases List.mem_singleton.1 hmem
      exact inPlace_of_isLiteral rfl
  have hused : UsedOnce q (readings log) := ⟨honce, hdisjoint.imp .inr⟩
  exact ⟨swatches, hswatches, hranges, hapart, hused, (pairwise_range_ne hswatches).2 hapart hused⟩

/-- A list that two values take from one constant is shown twice, at the one place
where it is written. -/
theorem not_pairwise_range_ne_palette :
    let spread (list dots name : Span) : Node :=
      .array list [some ⟨some dots, .identifier name "red" none⟩]
    let tree := palette (spread ⟨44, 52⟩ ⟨45, 48⟩ ⟨48, 51⟩) (spread ⟨58, 66⟩ ⟨59, 62⟩ ⟨62, 65⟩)
    let document : Document := .new "a.js" "javascript" 1
      "const red=[\"#f00\"];stylex.create(\x7ba:\x7bcolor:[...red],fill:[...red]\x7d\x7d)"
    (tree.literals.Pairwise fun a b => ¬a.span.Overlaps b.span) ∧
      ∃ swatches, swatches? document tree .new .never = .ok (some swatches) ∧
        swatches.map (·.range) = [⟨⟨0, 12⟩, ⟨0, 16⟩⟩, ⟨⟨0, 12⟩, ⟨0, 16⟩⟩] ∧
        ¬swatches.Pairwise fun a b => a.range ≠ b.range := by
  intro spread tree document
  obtain ⟨swatches, hswatches, hranges⟩ :
      ∃ swatches, swatches? document tree .new .never = .ok (some swatches) ∧
        swatches.map (·.range) = [⟨⟨0, 12⟩, ⟨0, 16⟩⟩, ⟨⟨0, 12⟩, ⟨0, 16⟩⟩] :=
    exists_swatches (by decide +kernel) (by decide +kernel) (by decide)
  refine ⟨by decide +kernel, swatches, hswatches, hranges, fun hdiffer => ?_⟩
  have hpairs := List.pairwise_map.2 hdiffer
  rw [hranges] at hpairs
  exact absurd hpairs (by decide)

end StyleSense.Assist.Coloring
