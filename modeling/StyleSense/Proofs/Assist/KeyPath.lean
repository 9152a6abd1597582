/-
# The keys above an answer

A hover places the key that it explains below other ones, its parents. These are
the known keys on the way from the closest style call to it, if each of them
stands right above an object or a function, and nothing was handed into the call.
A key above anything else, such as parentheses or a list, is missing from them,
and a call inside of another one keeps the keys around it, unless it defines the
keyframes of a key.
-/

import StyleSense.Proofs.Assist.Hovered

namespace StyleSense.Assist.Hover

open StyleSense.Style StyleSense.Text StyleSense.Visitor

/-- The known keys on a trail. -/
def keys (trail : List Stage) : List String :=
  trail.filterMap Step.staticKey?

/-- Each known key on a trail stands above keys of its own. -/
def Held (trail : List Stage) : Prop :=
  ∀ e ∈ trail, e.staticKey?.isSome = true → holdsKeys e = true

instance (trail : List Stage) : Decidable (Held trail) :=
  inferInstanceAs (Decidable (∀ e ∈ trail, e.staticKey?.isSome = true → holdsKeys e = true))

/-- What becomes of the keys that a call is entered with: all known ones are put
behind them; or one is not, and there are fewer than known ones if there were none. -/
structure Tally (base : List String) (trail : List Stage) (parents : List String) : Prop where
  counted : Held trail → parents = base ++ keys trail
  fewer : ¬Held trail → base = [] → parents.length < (keys trail).length

section

variable {base parents : List String} {trail : List Stage} {e : Stage} {name : String}

theorem keys_concat (trail : List Stage) (e : Stage) :
    keys (trail ++ [e]) = keys trail ++ e.staticKey?.toList := by
  cases h : e.staticKey? <;> simp [keys, h]

theorem held_concat : Held (trail ++ [e]) ↔
    Held trail ∧ (e.staticKey?.isSome = true → holdsKeys e = true) := by
  simp [Held, or_imp, forall_and]

theorem Tally.length_le (h : Tally base trail parents) (hbase : base = []) :
    parents.length ≤ (keys trail).length := by
  by_cases hheld : Held trail
  · rw [h.counted hheld, hbase, List.nil_append]
  · exact (h.fewer hheld hbase).le

theorem Tally.keyed (h : Tally base trail parents) (hkey : e.staticKey? = some name)
    (hholds : holdsKeys e = true) : Tally base (trail ++ [e]) (parents ++ [name]) where
  counted hheld := by
    rw [h.counted (held_concat.1 hheld).1, keys_concat, hkey, Option.toList_some, List.append_assoc]
  fewer hheld hbase := by
    have htrail : ¬Held trail := fun h => hheld (held_concat.2 ⟨h, fun _ => hholds⟩)
    have hfewer := h.fewer htrail hbase
    simpa [keys_concat, hkey] using hfewer

/-- One known key that is not counted is missing for good. -/
theorem Tally.missed (hkey : e.staticKey? = some name) (hholds : holdsKeys e = false)
    (hlength : base = [] → parents.length ≤ (keys trail).length) :
    Tally base (trail ++ [e]) parents where
  counted hheld := by
    have h := (held_concat.1 hheld).2 (by simp [hkey])
    simp [hholds] at h
  fewer _ hbase := by
    have h := hlength hbase
    simp only [keys_concat, hkey, Option.toList_some, List.length_append, List.length_singleton]
    omega

theorem Tally.unkeyed (h : Tally base trail parents) (hkey : e.staticKey? = none) :
    Tally base (trail ++ [e]) parents := by
  have hheld : Held (trail ++ [e]) ↔ Held trail := by simp [held_concat, hkey]
  have hkeys : keys (trail ++ [e]) = keys trail := by simp [keys_concat, hkey]
  constructor
  · rw [hheld, hkeys]
    exact h.counted
  · rw [hheld, hkeys]
    exact h.fewer

/-- If a call is entered with no keys, they are all there exactly if all are counted. -/
theorem Tally.eq_iff (h : Tally [] trail parents) : parents = keys trail ↔ Held trail := by
  constructor
  · intro heq
    by_contra hheld
    have hfewer := h.fewer hheld rfl
    rw [heq] at hfewer
    exact lt_irrefl _ hfewer
  · intro hheld
    exact h.counted hheld

end

section

variable {tree : Node} {log trail outer inner : List Stage} {call s : Stage}

/-- On the way from a style call to a place in it, with no call that loses it and no
other style call between, its keys are tallied. -/
theorem Hovering.tally (h : Hovering log)
    (hdescent : Descent tree log (outer ++ call :: inner) s) (hstyle : call.callKind?.isSome = true)
    (hclosest : ∀ e ∈ inner, e.callKind? = none) (hwithin : s.state.call.isSome = true) :
    Tally call.state.parents inner s.state.parents := by
  induction inner using List.reverseRecOn generalizing s with
  | nil =>
      have ⟨hcall, hstate, _⟩ := hdescent.of_concat
      rw [hstate]
      cases h.hands call hcall.enters.mem hcall.enters.enter with
      | called _ _ hparents =>
          rw [hparents]
          constructor
          · simp [keys]
          · simp [Held]
      | lost hkind | keyed _ hkind | renewed _ hkind | same hkind => simp [hkind] at hstyle
  | append_singleton inner e ih =>
      rw [← List.cons_append, ← List.append_assoc] at hdescent
      have ⟨he, hstate, _⟩ := hdescent.of_concat
      have hkind := hclosest e (by simp)
      have tally := ih he fun d hd => hclosest d (List.mem_append_left _ hd)
      rw [hstate] at hwithin ⊢
      cases h.hands e he.enters.mem he.enters.enter with
      | called hstyle => simp [hkind] at hstyle
      | lost _ _ hcall => simp [hcall] at hwithin
      | keyed habove _ hkey hholds _ hparents =>
          rw [hparents]
          exact (tally habove).keyed hkey hholds
      | renewed habove _ hkey hstarts _ hparents =>
          rw [hparents]
          apply Tally.missed hkey (holdsKeys_of_startsKeyframes hstarts)
          simp
      | same _ hcall hparents hidle =>
          rw [hcall] at hwithin
          rw [hparents]
          cases hkey : e.staticKey? with
          | none => exact (tally hwithin).unkeyed hkey
          | some name =>
              apply Tally.missed hkey (hidle hwithin (by simp [hkey])).1
              exact (tally hwithin).length_le

/-- Nothing is handed into a call that has this trail: no style call is around it, or
it is a value that a hover reads as the keyframes of a key. -/
def Fresh (outer : List Stage) : Prop :=
  (∀ e ∈ outer, e.callKind? = none) ∨
    ∃ above e, outer = above ++ [e] ∧ e.state.call.isSome = true ∧
      e.staticKey?.isSome = true ∧ startsKeyframes e = true

theorem Hovering.parents_of_fresh (h : Hovering log) (hdescent : Descent tree log outer call)
    (hfresh : Fresh outer) : call.state.parents = [] := by
  rcases hfresh with hnone | ⟨above, e, rfl, hwithin, hkey, hstarts⟩
  · exact (h.outside hdescent hnone).2
  · have ⟨he, hstate, _⟩ := hdescent.of_concat
    have hholds := holdsKeys_of_startsKeyframes hstarts
    rw [hstate]
    cases h.hands e he.enters.mem he.enters.enter with
    | called hstyle => simp [Step.callKind?_of_staticKey? hkey] at hstyle
    | lost _ hnone => simp [hnone] at hkey
    | keyed _ _ _ hheld => simp [hholds] at hheld
    | renewed _ _ _ _ _ hparents => exact hparents
    | same _ _ _ hidle =>
        rw [(hidle hwithin hkey).2] at hstarts
        cases hstarts

end

/-- Whenever a hover answers, the parents of the key that it explains are the keys
the closest style call around it was entered with and, if all known keys between
stand right above keys of their own, all of these. If the call is entered with no
keys, the parents are the known keys between exactly if all of them stand so. -/
theorem parents_eq_keys_iff {document : Document} {tree : Node} {tracker : Tracker}
    {position : Position} {normalize : Normalization} {token : Token} {shown : Hover}
    (h : hover? document tree tracker position normalize token = .ok (some shown)) :
    let q : Query := ⟨document, normalize, spanBase document tree, document.byteOfPosition position⟩
    let log := (searching document tree position normalize token).steps tree none .outside
      (.start tracker none)
    ∃ s ∈ log, ∃ key value site, Explains q s key value site shown ∧
      ∃ outer call inner, Innermost (around log s.path) outer call inner ∧
        (Held inner → site.parents = call.state.parents ++ keys inner) ∧
        (Fresh outer → (site.parents = keys inner ↔ Held inner)) := by
  intro q log
  have ⟨s, hs, key, value, site, hexplains⟩ := exists_explains h
  have ⟨trail, hdescent⟩ := exists_descent hs hexplains.enter
  have hovering : Hovering log := hovering_steps ..
  have hwithin : s.state.call.isSome = true := by rw [hexplains.call, Option.isSome_some]
  have ⟨outer, call, inner, hinnermost⟩ :=
    hovering.exists_innermost hdescent (Option.isSome_iff_ne_none.1 hwithin)
  obtain rfl := hinnermost.split
  have tally := hovering.tally hdescent hinnermost.style hinnermost.closest hwithin
  rw [hexplains.parents] at tally
  have haround : outer ++ call :: inner = around log s.path :=
    hdescent.eq_around fun d hd e he => enter_unique hd he
  refine ⟨s, hs, key, value, site, hexplains, outer, call, inner, haround ▸ hinnermost,
    tally.counted, ?_⟩
  intro hfresh
  rw [hovering.parents_of_fresh hdescent.of_append hfresh] at tally
  exact tally.eq_iff

/-- Over `color`, the only key between it and its call is `a`, and `a` is all of the parents. -/
theorem parents_eq_keys_iff_red :
    let document := redDocument
    let q : Query := ⟨document, (⟨false⟩ : Normalizer), spanBase document redTree,
      document.byteOfPosition ⟨0, 20⟩⟩
    let log := (searching document redTree ⟨0, 20⟩ (⟨false⟩ : Normalizer) .never).steps redTree none
      .outside (.start .new none)
    ∃ s ∈ log, ∃ key value site shown, Explains q s key value site shown ∧
      ∃ outer call inner, Innermost (around log s.path) outer call inner ∧ Fresh outer ∧
        Held inner ∧ site.parents = keys inner ∧ keys inner = ["a"] := by
  intro document q log
  have ⟨s, hs, key, value, site, hexplains, outer, call, inner, hinnermost, _, hiff⟩ :=
    parents_eq_keys_iff hover?_red
  have hplace : ∀ s ∈ log, s.hook = .enter → touchesKey q s = true →
      s.path = [0, 0, 1, 0, 1, 0] ∧ s.state.parents = ["a"] := by decide +kernel
  have ⟨hpath, hparents⟩ := hplace s hs hexplains.enter hexplains.touchesKey
  have hsplit := hinnermost.split
  rw [hpath] at hsplit
  have hheld : Held (around log [0, 0, 1, 0, 1, 0]) := by decide +kernel
  rw [hsplit] at hheld
  have hone : (around log [0, 0, 1, 0, 1, 0]).countP (·.callKind?.isSome) = 1 := by decide +kernel
  have hfresh : ∀ e ∈ outer, e.callKind? = none := by
    rw [hsplit, List.countP_append, List.countP_cons, if_pos hinnermost.style] at hone
    have hnone := List.countP_eq_zero.1 (Nat.add_eq_zero_iff.1 (Nat.succ.inj hone)).1
    simpa using hnone
  have hinner : Held inner := fun e he => hheld e (by simp [he])
  have hkeys := (hiff (.inl hfresh)).2 hinner
  refine ⟨s, hs, key, value, site, _, hexplains, outer, call, inner, hinnermost, .inl hfresh,
    hinner, hkeys, ?_⟩
  rw [← hkeys, ← hexplains.parents, hparents]

/-- The document `stylex.create({a:{x:[stylex.create({b:({color:"red"})})]}})`. -/
def nestedDocument : Document :=
  .new "a.js" "javascript" 1
    "stylex.create(\x7ba:\x7bx:[stylex.create(\x7bb:(\x7bcolor:\"red\"\x7d)\x7d)]\x7d\x7d)"

/-- Its tree. -/
def nestedTree : Node :=
  let create (span callee api member : Span) (styles : Node) : Node :=
    .call span (.member callee (.identifier api "stylex" none) (.identifier member "create" none))
      [⟨none, styles⟩] none
  let color : Node := .pair .property (.identifier ⟨41, 46⟩ "color" none) (.string ⟨47, 52⟩ "red")
  let b : Node := .pair .property (.identifier ⟨37, 38⟩ "b" none)
    (.wrapped .parenthesis ⟨39, 54⟩ (.object ⟨40, 53⟩ [color]))
  let nested := create ⟨22, 56⟩ ⟨22, 35⟩ ⟨22, 28⟩ ⟨29, 35⟩ (.object ⟨36, 55⟩ [b])
  let x : Node := .pair .property (.identifier ⟨19, 20⟩ "x" none)
    (.array ⟨21, 57⟩ [some ⟨none, nested⟩])
  let a : Node := .pair .property (.identifier ⟨16, 17⟩ "a" none) (.object ⟨18, 58⟩ [x])
  let call := create ⟨1, 60⟩ ⟨1, 14⟩ ⟨1, 7⟩ ⟨8, 14⟩ (.object ⟨15, 59⟩ [a])
  .program .module ⟨1, 60⟩ [.plain .expressionStatement ⟨1, 60⟩ [.one (some call)] []]

/-- The key in parentheses is missing, and the one around the nested call is there:
`color` is shown in `.a`, and the only key between it and its call is `b`. -/
theorem parents_ne_keys_nested :
    let document := nestedDocument
    let q : Query := ⟨document, (⟨false⟩ : Normalizer), spanBase document nestedTree,
      document.byteOfPosition ⟨0, 41⟩⟩
    let log := (searching document nestedTree ⟨0, 41⟩ (⟨false⟩ : Normalizer) .never).steps
      nestedTree none .outside (.start .new none)
    ∃ shown : Hover, hover? document nestedTree .new ⟨0, 41⟩ (⟨false⟩ : Normalizer) .never =
        .ok (some shown) ∧
      shown.contents = "```css\n.a \x7b\n  color: red;\n\x7d\n```" ∧
      ∃ s ∈ log, ∃ key value site, Explains q s key value site shown ∧
        ∃ outer call inner, Innermost (around log s.path) outer call inner ∧
          site.parents = ["a"] ∧ keys inner = ["b"] := by
  intro document q log
  have hanswer : hover? document nestedTree .new ⟨0, 41⟩ (⟨false⟩ : Normalizer) .never =
      .ok (some ⟨"```css\n.a \x7b\n  color: red;\n\x7d\n```", ⟨⟨0, 40⟩, ⟨0, 45⟩⟩⟩) := by
    decide +kernel
  have ⟨s, hs, key, value, site, hexplains⟩ := exists_explains hanswer
  have hplace : ∀ s ∈ log, s.hook = .enter → touchesKey q s = true →
      s.path = [0, 0, 1, 0, 1, 0, 1, 0, 1, 0, 1, 0, 0] ∧ s.state.parents = ["a"] := by
    decide +kernel
  have ⟨hpath, hparents⟩ := hplace s hs hexplains.enter hexplains.touchesKey
  let trail := around log [0, 0, 1, 0, 1, 0, 1, 0, 1, 0, 1, 0, 0]
  have hcall : (trail[8]?.any (·.callKind?.isSome)) = true := by decide +kernel
  have hclosest : ∀ e ∈ trail.drop 9, e.callKind? = none := by decide +kernel
  have hkeys : keys (trail.drop 9) = ["b"] := by decide +kernel
  have ⟨call, hget, hstyle⟩ := (Option.any_eq_true _ _).1 hcall
  have hsplit : trail = trail.take 8 ++ call :: trail.drop 9 := by
    have ⟨hlt, hcall⟩ := List.getElem?_eq_some_iff.1 hget
    rw [← hcall, ← List.drop_eq_getElem_cons hlt, List.take_append_drop]
  refine ⟨_, hanswer, rfl, s, hs, key, value, site, hexplains, trail.take 8, call, trail.drop 9,
    ?_, hexplains.parents ▸ hparents, hkeys⟩
  rw [hpath]
  exact ⟨hsplit, hstyle, hclosest⟩

end StyleSense.Assist.Hover
