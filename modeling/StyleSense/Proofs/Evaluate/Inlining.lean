/-
# Spreading a literal

A literal that is spread may as well be written out: an array literal into the
elements or arguments around it, an object literal into the properties around
it. The evaluation is the same, also where this happens further down in an
expression, and as often as one likes.

For objects this rests on how entries are put into a dictionary. A key that
comes again keeps its place and takes the new value, so the entries of the inner
literal may be gathered first or put one by one.
-/

import Mathlib.Data.List.ReduceOption
import StyleSense.Proofs.Evaluate.Exchange
import StyleSense.Proofs.Tree.Steps

namespace StyleSense

/-- Literals that are spread in one tree are written out in another. -/
inductive Node.Inlines : Node → Node → Prop
  /-- `[before, ...[inner], after]` -/
  | elements (span place dots : Span) (before inner after : List (Option (Argument Node))) :
      Node.Inlines (.array span (before ++ some ⟨some dots, .array place inner⟩ :: after))
        (.array span (before ++ inner ++ after))
  /-- `callee(before, ...[inner], after)`, where arguments have no holes. -/
  | arguments (span place dots : Span) (callee : Node) (before after : List (Argument Node))
      (inner : List (Option (Argument Node))) (types : Option Node) :
      Node.Inlines (.call span callee (before ++ ⟨some dots, .array place inner⟩ :: after) types)
        (.call span callee (before ++ inner.reduceOption ++ after) types)
  /-- `{before, ...{inner}, after}` -/
  | properties (span place dots : Span) (before inner after : List Node) :
      Node.Inlines (.object span (before ++ .spread dots (.object place inner) :: after))
        (.object span (before ++ inner ++ after))
  /-- Anywhere below a node, and in several places at once. -/
  | inside {n : Node} (f : ChildRef → Node → Node)
      (h : ∀ c ∈ n.children, Node.Inlines c.2 (f c.1 c.2)) : Node.Inlines n (n.exchange f)
  | refl (n : Node) : Node.Inlines n n
  | trans {n m k : Node} (first : Node.Inlines n m) (second : Node.Inlines m k) :
      Node.Inlines n k

/-- A literal may be written out wherever it is spread: every place in a tree is
reached. -/
theorem Node.Inlines.exists_of_at? {path : Path} {n k m : Node} (hat : n.at? path = some k)
    (h : k.Inlines m) : ∃ n', n.Inlines n' ∧ n'.at? path = some m := by
  classical
  induction path generalizing n with
  | nil =>
      cases hat
      exact ⟨m, h, rfl⟩
  | cons i path ih =>
      obtain ⟨c, hc, hat⟩ := Option.bind_eq_some_iff.1 hat
      obtain ⟨m', hchild, hat⟩ := ih hat
      have hf : (if (c.1, c.2) = c then m' else c.2) = m' := if_pos rfl
      refine ⟨n.exchange fun ref d => if (ref, d) = c then m' else d, .inside _ ?_, ?_⟩
      · intro d _
        by_cases hd : d = c
        · rw [if_pos hd, hd]
          exact hchild
        · rw [if_neg hd]
          exact .refl d.2
      · rw [Node.at?, Node.children_exchange, List.getElem?_map, hc, Option.map_some, hf]
        exact hat

namespace Tracker

variable {t : Tracker} {n m : Node}

theorem evaluateElements_append (t : Tracker) (xs ys : List (Option (Argument Node))) :
    t.evaluateElements (xs ++ ys) = t.evaluateElements xs ++ t.evaluateElements ys := by
  induction xs with
  | nil => rfl
  | cons x xs ih =>
      cases x with
      | none => exact ih
      | some argument =>
          rw [List.cons_append, evaluateElements_some, evaluateElements_some, ih,
            List.append_assoc]

theorem evaluateElements_reduceOption (t : Tracker) (xs : List (Option (Argument Node))) :
    t.evaluateElements (xs.reduceOption.map some) = t.evaluateElements xs := by
  induction xs with
  | nil => rfl
  | cons x xs ih =>
      cases x with
      | none => rw [List.reduceOption_cons_of_none, ih, evaluateElements_none]
      | some argument =>
          rw [List.reduceOption_cons_of_some, List.map_cons, evaluateElements_some,
            evaluateElements_some, ih]

/-- A spread array literal adds the elements of the literal. -/
theorem evaluateElements_spread (t : Tracker) (dots place : Span)
    (before inner after : List (Option (Argument Node))) :
    t.evaluateElements (before ++ some ⟨some dots, .array place inner⟩ :: after) =
      t.evaluateElements (before ++ inner ++ after) := by
  rw [List.append_assoc, evaluateElements_append, evaluateElements_append,
    evaluateElements_append, evaluateElements_some]
  rfl

theorem evaluateArguments_spread (t : Tracker) (dots place : Span)
    (before after : List (Argument Node)) (inner : List (Option (Argument Node))) :
    t.evaluateArguments (before ++ ⟨some dots, .array place inner⟩ :: after) =
      t.evaluateArguments (before ++ inner.reduceOption ++ after) := by
  rw [evaluateArguments_eq, evaluateArguments_eq, List.map_append, List.map_append,
    List.map_append, List.map_cons, evaluateElements_spread, evaluateElements_append,
    evaluateElements_append, evaluateElements_append, evaluateElements_append,
    evaluateElements_reduceOption]

theorem evaluateProperties_append (t : Tracker) (d : Dictionary Evaluation) (xs ys : List Node) :
    t.evaluateProperties d (xs ++ ys) =
      t.evaluateProperties (t.evaluateProperties d xs) ys := by
  induction xs generalizing d with
  | nil => rfl
  | cons x xs ih =>
      rw [List.cons_append, evaluateProperties_cons t d x (xs ++ ys), ih,
        evaluateProperties_cons t d x xs]

open Dictionary in
/-- Entries that were gathered first may also be put before one more property
adds its own. -/
theorem putAll_evaluateProperties_one {entries : Dictionary Evaluation}
    (h : (keys entries).Nodup) (t : Tracker) (n : Node) (d : Dictionary Evaluation) :
    putAll (t.evaluateProperties entries [n]) d = t.evaluateProperties (putAll entries d) [n] := by
  cases n with
  | identifier span name => exact putAll_put h name _ d
  | spread span source => exact putAll_putAll h _ d
  | pair kind key value =>
      by_cases hpattern : kind = .pattern
      · subst hpattern
        rfl
      · rw [evaluateProperties_pair t _ hpattern, evaluateProperties_pair t _ hpattern]
        cases t.propertyKey? key with
        | none => rfl
        | some name => exact putAll_put h name _ d
  | _ => rfl

theorem nodup_keys_evaluateProperties_one {d : Dictionary Evaluation}
    (h : (Dictionary.keys d).Nodup) (t : Tracker) (n : Node) :
    (Dictionary.keys (t.evaluateProperties d [n])).Nodup := by
  cases n with
  | identifier span name => exact Dictionary.nodup_keys_put h name _
  | spread span source => exact Dictionary.nodup_keys_putAll _ h
  | pair kind key value =>
      by_cases hpattern : kind = .pattern
      · subst hpattern
        exact h
      · rw [evaluateProperties_pair t _ hpattern]
        cases t.propertyKey? key with
        | none => exact h
        | some name => exact Dictionary.nodup_keys_put h name _
  | _ => exact h

open Dictionary in
/-- Entries that were gathered first may also be put before further properties
add theirs. -/
theorem putAll_evaluateProperties {entries : Dictionary Evaluation} (h : (keys entries).Nodup)
    (t : Tracker) (properties : List Node) (d : Dictionary Evaluation) :
    putAll (t.evaluateProperties entries properties) d =
      t.evaluateProperties (putAll entries d) properties := by
  induction properties generalizing entries with
  | nil => rfl
  | cons n properties ih =>
      rw [evaluateProperties_cons t entries, evaluateProperties_cons t (putAll entries d),
        ih (nodup_keys_evaluateProperties_one h t n), putAll_evaluateProperties_one h]

/-- A spread object literal adds the entries of the literal. -/
theorem evaluateProperties_spread (t : Tracker) (dots place : Span) (d : Dictionary Evaluation)
    (before inner after : List Node) :
    t.evaluateProperties d (before ++ .spread dots (.object place inner) :: after) =
      t.evaluateProperties d (before ++ inner ++ after) := by
  have hinner (d : Dictionary Evaluation) :
      t.evaluateProperties d [.spread dots (.object place inner)] =
        t.evaluateProperties d inner := by
    have hnil : (Dictionary.keys ([] : Dictionary Evaluation)).Nodup := List.nodup_nil
    exact putAll_evaluateProperties hnil t inner d
  rw [List.append_assoc, evaluateProperties_append, evaluateProperties_cons, hinner,
    ← evaluateProperties_append, ← evaluateProperties_append]

/-- A tree reads the same after literals are written out. -/
theorem interchangeable_of_inlines (t : Tracker) (h : n.Inlines m) : t.Interchangeable n m := by
  induction h with
  | elements span place dots before inner after =>
      have helements := t.evaluateElements_spread dots place before inner after
      refine ⟨?_, fun _ => rfl, rfl, rfl, rfl, rfl, fun _ _ => rfl⟩
      exact congrArg (fun items => Evaluation.known (.array items) span) helements.symm
  | arguments span place dots callee before after inner types =>
      have harguments := t.evaluateArguments_spread dots place before after inner
      refine ⟨?_, fun _ => rfl, rfl, rfl, rfl, rfl, fun _ _ => rfl⟩
      rw [evaluate_call, evaluate_call, harguments]
  | properties span place dots before inner after =>
      have hentries := t.evaluateProperties_spread dots place [] before inner after
      refine ⟨?_, fun _ => rfl, rfl, rfl, rfl, rfl, fun _ _ => rfl⟩
      exact congrArg (fun entries => Evaluation.known (.object entries) span) hentries.symm
  | inside f _ ih => exact .exchange ih
  | refl n => exact .refl t n
  | trans _ _ hfirst hsecond => exact hfirst.trans hsecond

/-- An expression evaluates to the same after literals that were spread in it are
written out, and they may be written out at any depth. -/
theorem evaluate_of_inlines (t : Tracker) (n : Node) :
    (∀ m, n.Inlines m → t.evaluate m = t.evaluate n) ∧
      ∀ path k m, n.at? path = some k → k.Inlines m →
        ∃ n', n.Inlines n' ∧ n'.at? path = some m :=
  ⟨fun _ h => (t.interchangeable_of_inlines h).evaluate, fun _ _ _ hat h => h.exists_of_at? hat⟩

/-- `{a: "red", ...{b: true, a: "blue"}}` -/
def spreadObject : Node :=
  let inner : Node := .object ⟨20, 41⟩
    [.pair .property (.identifier ⟨21, 22⟩ "b" none) (.boolean ⟨24, 28⟩ true),
      .pair .property (.identifier ⟨30, 31⟩ "a" none) (.string ⟨33, 39⟩ "blue")]
  .object ⟨6, 42⟩
    [.pair .property (.identifier ⟨7, 8⟩ "a" none) (.string ⟨10, 15⟩ "red"), .spread ⟨17, 41⟩ inner]

/-- `{a: "red", b: true, a: "blue"}`, at the places of `spreadObject`. -/
def writtenObject : Node :=
  .object ⟨6, 42⟩
    [.pair .property (.identifier ⟨7, 8⟩ "a" none) (.string ⟨10, 15⟩ "red"),
      .pair .property (.identifier ⟨21, 22⟩ "b" none) (.boolean ⟨24, 28⟩ true),
      .pair .property (.identifier ⟨30, 31⟩ "a" none) (.string ⟨33, 39⟩ "blue")]

/-- `[...[{a: "red", ...{b: true, a: "blue"}}], null]` -/
def spreadArray : Node :=
  .array ⟨1, 50⟩ [some ⟨some ⟨2, 5⟩, .array ⟨5, 43⟩ [some ⟨none, spreadObject⟩]⟩,
    some ⟨none, .null ⟨45, 49⟩⟩]

/-- `[{a: "red", b: true, a: "blue"}, null]`, at the places of `spreadArray`. -/
def writtenArray : Node :=
  .array ⟨1, 50⟩ [some ⟨none, writtenObject⟩, some ⟨none, .null ⟨45, 49⟩⟩]

theorem inlines_spreadObject : spreadObject.Inlines writtenObject :=
  .properties ⟨6, 42⟩ ⟨20, 41⟩ ⟨17, 41⟩ [_] _ []

theorem inlines_spreadArray : spreadArray.Inlines writtenArray := by
  refine .trans (.elements ⟨1, 50⟩ ⟨5, 43⟩ ⟨2, 5⟩ [] _ _) ?_
  apply Node.Inlines.inside fun ref n => if ref = .element .elements 0 then writtenObject else n
  exact List.forall_mem_cons.2
    ⟨inlines_spreadObject, List.forall_mem_cons.2 ⟨.refl _, nofun⟩⟩

/-- The key that comes twice keeps its first place and has its last value. The
object may also be written out alone, where it stands in the inner array. -/
theorem evaluate_of_inlines_spreadArray :
    spreadArray.Inlines writtenArray ∧ new.evaluate writtenArray = new.evaluate spreadArray ∧
      new.evaluate writtenArray =
        .known (.array [.known (.object [("a", .known (.string "blue") ⟨33, 39⟩),
          ("b", .known (.bool true) ⟨24, 28⟩)]) ⟨6, 42⟩, .known .null ⟨45, 49⟩]) ⟨1, 50⟩ ∧
      spreadArray.at? [0, 0] = some spreadObject ∧ spreadObject.Inlines writtenObject ∧
      ∃ n', spreadArray.Inlines n' ∧ n'.at? [0, 0] = some writtenObject := by
  obtain ⟨hsame, hplace⟩ := new.evaluate_of_inlines spreadArray
  exact ⟨inlines_spreadArray, hsame _ inlines_spreadArray, rfl, rfl, inlines_spreadObject,
    hplace [0, 0] _ _ rfl inlines_spreadObject⟩

end Tracker

end StyleSense
