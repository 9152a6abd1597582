/-
# Learning a constant

A tracker that learns one more constant folds more expressions. Those that had
already folded to a primitive value keep it, as long as the constant makes known
no source of a spread and no computed key that was not known before.

The condition is needed. An object literal leaves out what an unknown source
would add, so a property may be found missing from it and is there once the
source is known.
-/

import StyleSense.Proofs.Evaluate.Likeness

namespace StyleSense

/-- What `u` knows beyond `t` makes known no expression in the tree that decides
which entries a value has. -/
def Node.Settled (t u : Tracker) (tree : Node) : Prop :=
  ∀ n ∈ tree.preorder, ∀ s ∈ n.shapers,
    (t.evaluate s).value? = none → (u.evaluate s).value? = none

/-- The latitude of a tracker that has learned something: nothing moves, and
what was not known may be anything. -/
def Latitude.learning : Latitude :=
  ⟨True, Eq⟩

/-- A primitive value is like itself alone. -/
theorem Value.Alike.eq_of_isPrimitive {r : Latitude} {v w : Value} (h : Value.Alike r v w)
    (hprimitive : v.isPrimitive = true) : w = v := by
  cases h with
  | simple => rfl
  | array => cases hprimitive
  | object => cases hprimitive

/-- An evaluation to a primitive value is kept by learning. -/
theorem Evaluation.Alike.eq_of_learning {b : Evaluation} {v : Value} {span : Span}
    (h : Evaluation.Alike .learning (.known v span) b) (hprimitive : v.isPrimitive = true) :
    b = .known v span := by
  cases h with
  | opened _ hunknown => cases hunknown
  | known hvalue hplace =>
      obtain rfl : span = _ := hplace
      rw [hvalue.eq_of_isPrimitive hprimitive]

namespace Tracker

variable {t u : Tracker} {x : String} {w : Value}

theorem exists_bind (hframes : t.frames ≠ []) (x : String) (w : Value) :
    ∃ u, t.bind x w = .ok u := by
  unfold bind
  split
  · exact absurd ‹_› hframes
  · exact ⟨_, rfl⟩

theorem lookup?_bind_of_ne (h : t.bind x w = .ok u) {name : String} (hname : name ≠ x) :
    u.lookup? name = t.lookup? name := by
  unfold bind at h
  split at h
  · cases h
  · rename_i frame outer hframes
    cases h
    simp only [lookup?, hframes, List.findSome?_cons, Dictionary.get?_put_of_ne hname]

/-- A tracker that has learned a name it did not know knows all it knew. -/
theorem alike_bind (h : t.bind x w = .ok u) (hunbound : t.lookup? x = none) :
    t.Alike .learning u where
  namespaces := by
    unfold bind at h
    split at h <;> cases h
    rfl
  members := by
    unfold bind at h
    split at h <;> cases h
    rfl
  known name v hlookup := by
    have hname : name ≠ x := by
      rintro rfl
      rw [hunbound] at hlookup
      cases hlookup
    exact ⟨v, by rw [lookup?_bind_of_ne h hname, hlookup], .refl (fun _ => rfl) v⟩
  unknown _ _ := .inl trivial

/-- A settled tree is evaluated alike after a name is learned. -/
theorem alike_evaluate_bind {tree : Node} (h : t.bind x w = .ok u)
    (hunbound : t.lookup? x = none) (hsettled : tree.Settled t u) :
    Evaluation.Alike .learning (t.evaluate tree) (u.evaluate tree) := by
  have hsame : ∀ n : Node, n.mapSpans id = n := Node.mapSpans_eq_self fun _ => rfl
  have hcomparable : tree.Comparable .learning id t u := by
    constructor
    · intro n _
      rw [hsame]
      rfl
    · intro _ n hn s hs hunknown
      rw [hsame]
      exact hsettled n hn s hs hunknown
  have halike := (alike_bind h hunbound).evaluate hcomparable
  rwa [hsame] at halike

/-- Learning a name keeps a folded primitive value, and the place it came from,
wherever the name makes known no source of a spread and no computed key. -/
theorem evaluate_bind_of_settled {tree : Node} {v : Value} {span : Span} (w : Value)
    (hframes : t.frames ≠ []) (hunbound : ∀ frame ∈ t.frames, Dictionary.get? x frame = none)
    (hknown : t.evaluate tree = .known v span) (hprimitive : v.isPrimitive = true) :
    ∃ u, t.bind x w = .ok u ∧ (tree.Settled t u → u.evaluate tree = .known v span) := by
  obtain ⟨u, hbind⟩ := exists_bind hframes x w
  have hlookup : t.lookup? x = none := List.findSome?_eq_none_iff.2 hunbound
  refine ⟨u, hbind, ?_⟩
  intro hsettled
  have halike := alike_evaluate_bind hbind hlookup hsettled
  rw [hknown] at halike
  exact halike.eq_of_learning hprimitive

/-- `({a: x, ...{b: "red"}}).b`: the value of `x` is not needed, and the source
of the spread is known. -/
def readBeside : Node :=
  let source : Node := .object ⟨12, 22⟩
    [.pair .property (.identifier ⟨13, 14⟩ "b" none) (.string ⟨16, 21⟩ "red")]
  let object : Node := .object ⟨2, 24⟩
    [.pair .property (.identifier ⟨3, 4⟩ "a" none) (.identifier ⟨6, 7⟩ "x" none),
      .spread ⟨9, 23⟩ source]
  .member ⟨1, 27⟩ object (.identifier ⟨26, 27⟩ "b" none)

/-- Every source of a spread and every computed key in the tree is known. -/
theorem settled_readBeside (u : Tracker) : readBeside.Settled new.push u := by
  have hknown : ∀ n ∈ readBeside.preorder, ∀ s ∈ n.shapers,
      (new.push.evaluate s).value?.isSome = true := by decide +kernel
  intro n hn s hs hunknown
  have hsome := hknown n hn s hs
  rw [hunknown] at hsome
  cases hsome

theorem evaluate_bind_of_settled_readBeside :
    new.push.evaluate readBeside = .known (.string "red") ⟨16, 21⟩ ∧
      ∃ u, new.push.bind "x" .null = .ok u ∧ readBeside.Settled new.push u ∧
        u.evaluate readBeside = .known (.string "red") ⟨16, 21⟩ := by
  have hframes : new.push.frames ≠ [] := List.cons_ne_nil _ _
  have hunbound : ∀ frame ∈ new.push.frames, Dictionary.get? "x" frame = none := by
    intro frame hmem
    rw [List.mem_singleton.1 hmem]
    rfl
  have hknown : new.push.evaluate readBeside = .known (.string "red") ⟨16, 21⟩ := rfl
  obtain ⟨u, hbind, hkept⟩ := evaluate_bind_of_settled .null hframes hunbound hknown rfl
  exact ⟨hknown, u, hbind, settled_readBeside u, hkept (settled_readBeside u)⟩

/-- `({...x}).a` -/
def readSpread : Node :=
  .member ⟨1, 11⟩
    (.object ⟨2, 8⟩ [.spread ⟨3, 7⟩ (.identifier ⟨6, 7⟩ "x" none)])
    (.identifier ⟨10, 11⟩ "a" none)

/-- Without the condition a folded value may change: `({...x}).a` is undefined
while `x` is unknown, and null once `x` is an object with that entry. -/
theorem evaluate_bind_readSpread :
    new.push.frames ≠ [] ∧ "x" ≠ "undefined" ∧
      (∀ frame ∈ new.push.frames, Dictionary.get? "x" frame = none) ∧
      new.push.evaluate readSpread = .known .undefined ⟨1, 11⟩ ∧
      Value.undefined.isPrimitive = true ∧
      ∃ u, new.push.bind "x" (.object [("a", .known .null ⟨0, 0⟩)]) = .ok u ∧
        u.evaluate readSpread = .known .null ⟨0, 0⟩ := by
  refine ⟨List.cons_ne_nil _ _, by decide, ?_, rfl, rfl, _, rfl, rfl⟩
  intro frame hmem
  rw [List.mem_singleton.1 hmem]
  rfl

end Tracker

end StyleSense
