/-
# What a hover is about

A hover hands a place down the tree: in which call it is, and below which keys.
One lemma says all that a node can do to it (`hands`). Only a style call puts a
call in place, and without one no key is looked at, so an answer lies below a
style call. It explains the key that the walk ends at, and the range of this key
has the cursor in it.
-/

import StyleSense.Proofs.Assist.Descent
import StyleSense.Proofs.Document

namespace StyleSense

open StyleSense.Assist

namespace Visitor.Step

variable {α β : Type}

/-- The style call at a node that is entered, if it is one. -/
def callKind? (s : Step (Notes β) α) : Option CallKind :=
  match s.node with
  | .call _ callee _ _ => styleCall? s.memory.tracker callee
  | _ => none

/-- The key of a property that is entered, if it is one and its key is known. -/
def staticKey? (s : Step (Notes β) α) : Option String :=
  match s.node with
  | .pair .property key _ => s.memory.tracker.propertyKey? key
  | _ => none

theorem exists_call_of_callKind? {s : Step (Notes β) α} (h : s.callKind?.isSome = true) :
    ∃ span callee arguments types kind, s.node = .call span callee arguments types ∧
      styleCall? s.memory.tracker callee = some kind := by
  unfold callKind? at h
  split at h
  next span callee arguments types hnode =>
    have ⟨kind, hkind⟩ := Option.isSome_iff_exists.1 h
    exact ⟨span, callee, arguments, types, kind, hnode, hkind⟩
  next => cases h

/-- A property is no call. -/
theorem callKind?_of_staticKey? {s : Step (Notes β) α} (h : s.staticKey?.isSome = true) :
    s.callKind? = none := by
  unfold staticKey? at h
  split at h
  next hnode => rw [callKind?, hnode]
  next => cases h

end Visitor.Step

namespace Assist.Hover

open StyleSense.Style StyleSense.Text StyleSense.Visitor

/-- A step of a hover. -/
abbrev Stage := Step (Notes (Option Hover)) Place

/-- Whether a property is entered whose value holds keys of its own. -/
def holdsKeys (s : Stage) : Bool :=
  match s.node with
  | .pair .property _ value =>
      match unwrap s.memory.tracker value with
      | .value inner _ => isNested inner
      | .empty => false
  | _ => false

/-- Whether a property is entered whose value defines keyframes. -/
def startsKeyframes (s : Stage) : Bool :=
  match s.node with
  | .pair .property _ value =>
      match unwrap s.memory.tracker value with
      | .value inner _ => !isNested inner && isKeyframes s.memory.tracker value
      | .empty => false
  | _ => false

theorem holdsKeys_of_startsKeyframes {s : Stage} (h : startsKeyframes s = true) :
    holdsKeys s = false := by
  unfold startsKeyframes at h
  unfold holdsKeys
  split at h
  next =>
    split at h
    next => simp_all
    next => cases h
  next => cases h

/-- All that entering a node can do to the place that is handed down. -/
inductive Hands (s : Stage) (next : Place) : Prop
  /-- A style call puts itself in place, and keeps the keys. -/
  | called (hkind : s.callKind?.isSome = true) (hcall : next.call = s.callKind?)
      (hparents : next.parents = s.state.parents)
  /-- Any other call puts none in place. -/
  | lost (hkind : s.callKind? = none) (hkey : s.staticKey? = none) (hcall : next.call = none)
      (hparents : next.parents = s.state.parents)
  /-- In a style call, a known key above other ones is counted. -/
  | keyed {name : String} (hwithin : s.state.call.isSome = true) (hkind : s.callKind? = none)
      (hkey : s.staticKey? = some name) (hholds : holdsKeys s = true)
      (hcall : next.call = s.state.call) (hparents : next.parents = s.state.parents ++ [name])
  /-- There, one above keyframes takes all keys away. -/
  | renewed {name : String} (hwithin : s.state.call.isSome = true) (hkind : s.callKind? = none)
      (hkey : s.staticKey? = some name) (hstarts : startsKeyframes s = true)
      (hcall : next.call = some .keyframes) (hparents : next.parents = [])
  /-- Anything else leaves both as they are. -/
  | same (hkind : s.callKind? = none) (hcall : next.call = s.state.call)
      (hparents : next.parents = s.state.parents)
      (hidle : s.state.call.isSome = true → s.staticKey?.isSome = true →
        holdsKeys s = false ∧ startsKeyframes s = false)

section

variable {q : Query} {token : Token} {prunes : Node → Bool} {tree : Node} {start : Place}
  {notes : Notes (Option Hover)} {s : Stage}

theorem hands_call (hs : s ∈ (visitor token prunes (look q)).steps tree none start notes)
    (henter : s.hook = .enter) {span : Span} {callee : Node} {arguments : List (Argument Node)}
    {types : Option Node} (hnode : s.node = .call span callee arguments types) :
    Hands s (s.answer.handed s.state) := by
  have hkind : s.callKind? = styleCall? s.memory.tracker callee := by
    rw [Step.callKind?, hnode]
  have hkey : s.staticKey? = none := by rw [Step.staticKey?, hnode]
  rw [answer_eq_look hs henter fun noted => by rw [hnode]; rfl, hnode]
  dsimp only [look, enterCall]
  split
  next kind hstyle =>
    apply Hands.called
    · rw [hkind, hstyle, Option.isSome_some]
    · rw [hkind, hstyle]
      rfl
    · rfl
  next hstyle =>
    split
    · exact .same (hkind.trans hstyle) rfl rfl (by simp [hkey])
    · exact .lost (hkind.trans hstyle) hkey rfl rfl

theorem hands_pair (hs : s ∈ (visitor token prunes (look q)).steps tree none start notes)
    (henter : s.hook = .enter) {key value : Node} (hnode : s.node = .pair .property key value) :
    Hands s (s.answer.handed s.state) := by
  have hkind : s.callKind? = none := by rw [Step.callKind?, hnode]
  have hkey : s.staticKey? = s.memory.tracker.propertyKey? key := by rw [Step.staticKey?, hnode]
  rw [answer_eq_look hs henter fun noted => by rw [hnode]; rfl, hnode]
  dsimp only [look]
  unfold enterPair
  dsimp only
  split
  next call name hcall hname =>
    have hwithin : s.state.call.isSome = true := by rw [hcall, Option.isSome_some]
    split
    next hvalue =>
      exact .same hkind rfl rfl fun _ _ => by simp [holdsKeys, startsKeyframes, hnode, hvalue]
    next inner type hvalue =>
      have hholds : holdsKeys s = isNested inner := by simp only [holdsKeys, hnode, hvalue]
      have hstarts : startsKeyframes s =
          (!isNested inner && isKeyframes s.memory.tracker value) := by
        simp only [startsKeyframes, hnode, hvalue]
      split
      next hnested =>
        exact .keyed hwithin hkind (hkey.trans hname) (hholds.trans hnested) rfl rfl
      next hplain =>
        rw [Bool.not_eq_true] at hplain
        split
        next hkeyframes =>
          apply Hands.renewed hwithin hkind (hkey.trans hname) _ rfl rfl
          rw [hstarts, hplain, hkeyframes]
          rfl
        next hother =>
          have hidle : holdsKeys s = false ∧ startsKeyframes s = false := by
            rw [hholds, hstarts, hplain]
            simpa using hother
          split
          · exact .same hkind rfl rfl fun _ _ => hidle
          · exact .same hkind rfl rfl fun _ _ => hidle
  next hoff =>
    apply Hands.same hkind rfl rfl
    intro hcall hname
    have ⟨call, hcall⟩ := Option.isSome_iff_exists.1 hcall
    have ⟨name, hname⟩ := Option.isSome_iff_exists.1 hname
    exact absurd (hkey.symm.trans hname) (hoff call name hcall)

/-- What is handed down is one of these. -/
theorem hands (hs : s ∈ (visitor token prunes (look q)).steps tree none start notes)
    (henter : s.hook = .enter) : Hands s (s.answer.handed s.state) := by
  by_cases hcall : ∃ span callee arguments types, s.node = .call span callee arguments types
  · have ⟨_, _, _, _, hnode⟩ := hcall
    exact hands_call hs henter hnode
  by_cases hpair : ∃ key value, s.node = .pair .property key value
  · have ⟨_, _, hnode⟩ := hpair
    exact hands_pair hs henter hnode
  have hkind : s.callKind? = none := by
    rw [Step.callKind?]
    split
    next hnode => exact absurd ⟨_, _, _, _, hnode⟩ hcall
    next => rfl
  have hkey : s.staticKey? = none := by
    rw [Step.staticKey?]
    split
    next hnode => exact absurd ⟨_, _, hnode⟩ hpair
    next => rfl
  have hlook (noted : Notes (Option Hover)) :
      (look q s.node s.parent s.state noted).1 = .continue := by
    unfold look
    split
    next hnode => exact absurd ⟨_, _, _, _, hnode⟩ hcall
    next hnode => exact absurd ⟨_, _, hnode⟩ hpair
    next => rfl
  have hsame : s.answer.handed s.state = s.state := by
    have hmakes := ((threaded_visit _ tree none start notes).2 s hs).1
    rcases answer_of_enter hmakes henter with hanswer | hanswer | ⟨noted, hanswer⟩
    · rw [hanswer]
      rfl
    · rw [hanswer]
      rfl
    · rw [hanswer, hlook]
      rfl
  rw [hsame]
  exact .same hkind rfl rfl (by simp [hkey])

end

/-- What is used of the log of a hover: each step hands down what `hands` says, and
the top is outside of all calls. -/
structure Hovering (log : List Stage) : Prop where
  hands : ∀ s ∈ log, s.hook = .enter → Hands s (s.answer.handed s.state)
  top : ∀ s ∈ log, s.hook = .enter → s.path = [] → s.state = .outside

theorem hovering_steps (q : Query) (token : Token) (prunes : Node → Bool) (tree : Node)
    (notes : Notes (Option Hover)) :
    Hovering ((visitor token prunes (look q)).steps tree none .outside notes) where
  hands _ hs henter := Hover.hands hs henter
  top _ hs henter hpath := state_of_top hs henter hpath

section

variable {tree : Node} {log trail : List Stage} {s : Stage}

/-- Below no style call there are no keys. -/
theorem Hovering.outside (h : Hovering log) (hdescent : Descent tree log trail s)
    (hnone : ∀ e ∈ trail, e.callKind? = none) :
    s.state.call = none ∧ s.state.parents = [] := by
  induction hdescent with
  | top hs hpath =>
      rw [h.top _ hs.mem hs.enter hpath]
      exact ⟨rfl, rfl⟩
  | @child trail e s index hdescent hs hpath hstate ih =>
      have ⟨hcall, hparents⟩ := ih fun d hd => hnone d (List.mem_append_left _ hd)
      have hkind := hnone e (List.mem_append_right _ (List.mem_singleton_self e))
      have henters := hdescent.enters
      rw [hstate]
      cases h.hands e henters.mem henters.enter with
      | called hstyle => simp [hkind] at hstyle
      | lost _ _ hnext hkept => exact ⟨hnext, hkept.trans hparents⟩
      | keyed hwithin => simp [hcall] at hwithin
      | renewed hwithin => simp [hcall] at hwithin
      | same _ hnext hkept => exact ⟨hnext.trans hcall, hkept.trans hparents⟩

/-- The style call that is closest on a trail. -/
structure Innermost (trail outer : List Stage) (call : Stage) (inner : List Stage) : Prop where
  split : trail = outer ++ call :: inner
  style : call.callKind?.isSome = true
  closest : ∀ e ∈ inner, e.callKind? = none

theorem exists_innermost (h : ∃ e ∈ trail, e.callKind? ≠ none) :
    ∃ outer call inner, Innermost trail outer call inner := by
  induction trail using List.reverseRecOn with
  | nil => simp at h
  | append_singleton trail last ih =>
      by_cases hlast : last.callKind? = none
      · have hrest : ∃ e ∈ trail, e.callKind? ≠ none := by
          simpa [hlast] using h
        have ⟨outer, call, inner, hinnermost⟩ := ih hrest
        apply Exists.intro outer
        apply Exists.intro call
        apply Exists.intro (inner ++ [last])
        constructor
        · rw [hinnermost.split, List.append_assoc, List.cons_append]
        · exact hinnermost.style
        · simpa [or_imp, forall_and, hlast] using hinnermost.closest
      · exact ⟨trail, last, [], rfl, Option.isSome_iff_ne_none.2 hlast, by simp⟩

/-- A place with a call is below a style call. -/
theorem Hovering.exists_innermost (h : Hovering log) (hdescent : Descent tree log trail s)
    (hcall : s.state.call ≠ none) : ∃ outer call inner, Innermost trail outer call inner := by
  apply Hover.exists_innermost
  by_contra hnone
  push Not at hnone
  exact hcall (h.outside hdescent hnone).1

end

/-- At this step the hover answers with the preview of a key in a style call. -/
structure Explains (q : Query) (s : Stage) (key value : Node) (site : Site) (shown : Hover) :
    Prop where
  enter : s.hook = .enter
  node : s.node = .pair .property key value
  call : s.state.call = some site.call
  parents : s.state.parents = site.parents
  name : s.memory.tracker.propertyKey? key = some site.key
  touches : q.touches key.span = true
  preview : ∃ inner type, unwrap s.memory.tracker value = .value inner type ∧
    preview? q site key.span (s.memory.tracker.evaluate inner) = some shown

/-- Whether a property is entered whose key the cursor touches. -/
def touchesKey (q : Query) (s : Stage) : Bool :=
  match s.node with
  | .pair .property key _ => q.touches key.span
  | _ => false

theorem Explains.touchesKey {q : Query} {s : Stage} {key value : Node} {site : Site}
    {shown : Hover} (h : Explains q s key value site shown) : touchesKey q s = true := by
  rw [Hover.touchesKey, h.node]
  exact h.touches

/-- Only a key that the cursor touches has a preview found, and it ends the walk. -/
theorem explains_of_enterPair {q : Query} {s : Stage} {key value : Node} {shown : Hover}
    (henter : s.hook = .enter) (hnode : s.node = .pair .property key value)
    (hempty : s.memory.found = none)
    (h : (enterPair q key value s.state s.memory).2.found = some shown) :
    (enterPair q key value s.state s.memory).1 = .exit ∧
      ∃ site, Explains q s key value site shown := by
  unfold enterPair at h ⊢
  dsimp only at h ⊢
  split at h
  next call name hcall hname =>
    split at h
    next => simp [hempty] at h
    next inner type hvalue =>
      split at h
      · simp [hempty] at h
      · split at h
        · simp [hempty] at h
        · split at h
          next hplain hother htouches =>
            simp only [hplain, hother, htouches, if_true]
            exact ⟨rfl, _, henter, hnode, hcall, rfl, hname, htouches, inner, type, hvalue, h⟩
          next => simp [hempty] at h
  next => simp [hempty] at h

theorem explains_of_found {q : Query} {token : Token} {prunes : Node → Bool} {s : Stage}
    {shown : Hover} (hmakes : (visitor token prunes (look q)).Makes s)
    (hempty : s.memory.found = none) (h : s.next.found = some shown) :
    s.answer = .exit ∧ ∃ key value site, Explains q s key value site shown := by
  have ⟨henter, noted, hnoted, hfound, hlooked⟩ :=
    looked_of_found_ne hmakes (by rw [h, hempty]; simp)
  have hanswer : s.answer = (look q s.node s.parent s.state noted).1 := by rw [← hlooked]
  have hafter : (look q s.node s.parent s.state noted).2.found = some shown := by
    rw [← hlooked, h]
  unfold look at hanswer hafter
  split at hafter
  next => simp [hfound, hempty] at hafter
  next key value hnode =>
    rw [hnode] at hnoted hanswer
    obtain rfl : s.memory = noted := congrArg Prod.snd hnoted
    have ⟨hexit, site, hsite⟩ := explains_of_enterPair henter hnode hempty hafter
    exact ⟨hanswer.trans hexit, key, value, site, hsite⟩
  next => simp [hfound, hempty] at hafter

/-- An answer is what was found. -/
theorem found_of_join_finish {notes : Notes (Option Hover)} {outcome : Outcome} {shown : Hover}
    (h : (notes.finish outcome).map Option.join = .ok (some shown)) : notes.found = some shown := by
  unfold Notes.finish at h
  split at h
  next => cases h
  next =>
    split at h
    next => cases h
    next => exact Except.ok.inj h

/-- A hover answers with what one of its steps finds. -/
theorem exists_explains {document : Document} {tree : Node} {tracker : Tracker}
    {position : Position} {normalize : Normalization} {token : Token} {shown : Hover}
    (h : hover? document tree tracker position normalize token = .ok (some shown)) :
    let q : Query := ⟨document, normalize, spanBase document tree, document.byteOfPosition position⟩
    let log := (searching document tree position normalize token).steps tree none .outside
      (.start tracker none)
    ∃ s ∈ log, ∃ key value site, Explains q s key value site shown := by
  intro q log
  let v := searching document tree position normalize token
  let notes : Notes (Option Hover) := .start tracker none
  have hfound : (v.visit tree none .outside notes).2.found = some shown :=
    found_of_join_finish h
  have ⟨hthreaded, hmakes⟩ := v.threaded_visit tree none .outside notes
  have ⟨earlier, s, later, hsteps, hempty, hchanged⟩ :=
    hthreaded.exists_first_ne (·.found) (by rw [hfound]; exact Option.some_ne_none shown)
  have hmem : s ∈ v.steps tree none .outside notes := by simp [hsteps]
  have ⟨found, hnext⟩ := Option.ne_none_iff_exists'.1 (hempty ▸ hchanged)
  have ⟨hexit, hexplains⟩ := explains_of_found (hmakes s hmem).1 hempty hnext
  -- what is found ends the walk, so it is what was found last
  obtain rfl := (v.exit_visit tree none .outside notes).2 _ _ _ hsteps hexit
  rw [hsteps] at hthreaded
  have ⟨middle, _, _, hlast⟩ := threaded_append.1 hthreaded
  have hsame : found = shown := by
    rw [← hlast, hnext] at hfound
    exact Option.some.inj hfound
  exact ⟨s, hmem, hsame ▸ hexplains⟩

/-- An answer is about a key under the cursor, in a style call. Whenever a hover
answers, its walk has entered a property of the tree whose key it knows then. The
answer's range is that of the key's span and has the cursor in it, rounded to a
character. Around the property stands a call that was a style call when the walk
entered it. -/
theorem hover?_about_key {document : Document} {tree : Node} {tracker : Tracker}
    {position : Position} {normalize : Normalization} {token : Token} {shown : Hover}
    (hlength : unitLength document.text.toList < UInt32.size)
    (h : hover? document tree tracker position normalize token = .ok (some shown)) :
    let base := spanBase document tree
    let log := (searching document tree position normalize token).steps tree none .outside
      (.start tracker none)
    ∃ s, Enters tree log s ∧ ∃ key value name, s.node = .pair .property key value ∧
      s.memory.tracker.propertyKey? key = some name ∧
      shown.range = document.rangeOfSpan key.span base ∧
      shown.range.contains (document.positionOfByte (document.byteOfPosition position)) = true ∧
      ∃ c, Enters tree log c ∧ c.path <+: s.path ∧ c.path ≠ s.path ∧
        ∃ span callee arguments types kind, c.node = .call span callee arguments types ∧
          styleCall? c.memory.tracker callee = some kind := by
  intro base log
  have ⟨s, hs, key, value, site, hexplains⟩ := exists_explains h
  have ⟨trail, hdescent⟩ := exists_descent hs hexplains.enter
  have hrange : shown.range = document.rangeOfSpan key.span base := by
    have ⟨inner, type, _, hpreview⟩ := hexplains.preview
    have ⟨preview, _, hshown⟩ := Option.map_eq_some_iff.1 hpreview
    rw [← hshown]
  have ⟨outer, c, inner, hinnermost⟩ := (hovering_steps ..).exists_innermost hdescent
    (by rw [hexplains.call]; exact Option.some_ne_none site.call)
  have ⟨hc, habove, hne⟩ := hdescent.of_mem (e := c) (by rw [hinnermost.split]; simp)
  refine ⟨s, hdescent.enters, key, value, site.key, hexplains.node, hexplains.name, hrange, ?_,
    c, hc, habove, hne, Step.exists_call_of_callKind? hinnermost.style⟩
  have htouches := hexplains.touches
  simp only [Query.touches, Bool.and_eq_true, decide_eq_true_eq] at htouches
  rw [hrange, Range.contains, Bool.and_eq_true]
  constructor
  · exact Document.positionOfByte_mono hlength htouches.1
  · exact Document.positionOfByte_mono hlength htouches.2

/-- The document `stylex.create({a:{color:"red"}})`. -/
def redDocument : Document :=
  .new "a.js" "javascript" 1 "stylex.create(\x7ba:\x7bcolor:\"red\"\x7d\x7d)"

/-- Its tree. -/
def redTree : Node :=
  let callee : Node :=
    .member ⟨1, 14⟩ (.identifier ⟨1, 7⟩ "stylex" none) (.identifier ⟨8, 14⟩ "create" none)
  let color : Node := .pair .property (.identifier ⟨19, 24⟩ "color" none) (.string ⟨25, 30⟩ "red")
  let style : Node := .pair .property (.identifier ⟨16, 17⟩ "a" none) (.object ⟨18, 31⟩ [color])
  let call : Node := .call ⟨1, 33⟩ callee [⟨none, .object ⟨15, 32⟩ [style]⟩] none
  .program .module ⟨1, 33⟩ [.plain .expressionStatement ⟨1, 33⟩ [.one (some call)] []]

theorem hover?_red :
    hover? redDocument redTree .new ⟨0, 20⟩ (⟨false⟩ : Normalizer) .never =
      .ok (some ⟨"```css\n.a \x7b\n  color: red;\n\x7d\n```", ⟨⟨0, 18⟩, ⟨0, 23⟩⟩⟩) := by
  decide +kernel

/-- Over `color`, the answer has the cursor in its range. -/
theorem hover?_about_key_red :
    unitLength redDocument.text.toList < UInt32.size ∧
      (hover? redDocument redTree .new ⟨0, 20⟩ (⟨false⟩ : Normalizer) .never).toOption.isSome ∧
      (Range.mk ⟨0, 18⟩ ⟨0, 23⟩).contains
        (redDocument.positionOfByte (redDocument.byteOfPosition ⟨0, 20⟩)) = true := by
  have hlength : unitLength redDocument.text.toList < UInt32.size := by decide +kernel
  have ⟨_, _, _, _, _, _, _, _, hcontains, _⟩ := hover?_about_key hlength hover?_red
  exact ⟨hlength, by rw [hover?_red]; rfl, hcontains⟩

end Assist.Hover

end StyleSense
