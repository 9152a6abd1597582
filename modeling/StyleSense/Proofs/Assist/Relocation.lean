/-
# Where a tree is placed

A parser that keeps one source map for many files puts each file at an offset of
its own. The analyses read spans against the start of the tree alone, so moving
the whole tree changes no answer. Two things must not happen: that a span is
moved past the largest offset, and that a node stands nowhere, for then its span
would become a place.
-/

import StyleSense.Proofs.Assist.Placement

namespace StyleSense

open StyleSense.Style StyleSense.Text

namespace Span

variable {k : UInt32} {s a b : Span}

/-- The span `k` bytes further on. -/
def moved (k : UInt32) (s : Span) : Span :=
  ⟨s.start + k, s.stop + k⟩

/-- Whether the span can be moved without passing the largest offset. -/
structure Fits (k : UInt32) (s : Span) : Prop where
  start : s.start.toNat + k.toNat < UInt32.size
  stop : s.stop.toNat + k.toNat < UInt32.size

instance (k : UInt32) (s : Span) : Decidable (s.Fits k) :=
  match Nat.decLt (s.start.toNat + k.toNat) UInt32.size,
    Nat.decLt (s.stop.toNat + k.toNat) UInt32.size with
  | .isTrue hstart, .isTrue hstop => .isTrue ⟨hstart, hstop⟩
  | .isFalse hstart, _ => .isFalse fun h => hstart h.start
  | _, .isFalse hstop => .isFalse fun h => hstop h.stop

theorem toNat_add_of_lt {offset : UInt32} (h : offset.toNat + k.toNat < UInt32.size) :
    (offset + k).toNat = offset.toNat + k.toNat :=
  (UInt32.toNat_add ..).trans (Nat.mod_eq_of_lt h)

theorem Fits.toNat_start (h : s.Fits k) : (s.moved k).start.toNat = s.start.toNat + k.toNat :=
  toNat_add_of_lt h.start

theorem Fits.toNat_stop (h : s.Fits k) : (s.moved k).stop.toNat = s.stop.toNat + k.toNat :=
  toNat_add_of_lt h.stop

theorem moved_injective (k : UInt32) : Function.Injective (moved k) := by
  rintro ⟨start, stop⟩ ⟨start', stop'⟩ h
  simp only [moved, mk.injEq, UInt32.add_left_inj] at h
  rw [h.1, h.2]

/-- A span that stands somewhere is not moved to no place. -/
theorem Fits.moved_ne_none (h : s.Fits k) (hs : s ≠ none) : s.moved k ≠ none := by
  intro hnone
  apply hs
  have hstart := h.toNat_start
  have hstop := h.toNat_stop
  rw [hnone] at hstart hstop
  obtain ⟨start, stop⟩ := s
  have hzero : (0 : UInt32).toNat = 0 := UInt32.toNat_zero
  have hstart : start = 0 := UInt32.toNat.inj (by simp only [none] at hstart; omega)
  have hstop : stop = 0 := UInt32.toNat.inj (by simp only [none] at hstop; omega)
  rw [hstart, hstop, none]

/-- Joining two spans and moving the join is moving both first. -/
theorem moved_union (ha : a ≠ none) (hb : b ≠ none) (hafits : a.Fits k) (hbfits : b.Fits k) :
    (a.moved k).union (b.moved k) = (a.union b).moved k := by
  have hstart : min (a.moved k).start (b.moved k).start = min a.start b.start + k := by
    have hmin : (min a.start b.start).toNat + k.toNat < UInt32.size := by
      rw [UInt32.toNat_min, ← Nat.add_min_add_right]
      exact Nat.lt_of_le_of_lt (Nat.min_le_left _ _) hafits.start
    apply UInt32.toNat.inj
    rw [toNat_add_of_lt hmin, UInt32.toNat_min, UInt32.toNat_min, hafits.toNat_start,
      hbfits.toNat_start, Nat.add_min_add_right]
  have hstop : max (a.moved k).stop (b.moved k).stop = max a.stop b.stop + k := by
    have hmax : (max a.stop b.stop).toNat + k.toNat < UInt32.size := by
      rw [UInt32.toNat_max, ← Nat.add_max_add_right]
      exact Nat.max_lt.2 ⟨hafits.stop, hbfits.stop⟩
    apply UInt32.toNat.inj
    rw [toNat_add_of_lt hmax, UInt32.toNat_max, UInt32.toNat_max, hafits.toNat_stop,
      hbfits.toNat_stop, Nat.add_max_add_right]
  rw [union_of_ne_none ha hb,
    union_of_ne_none (hafits.moved_ne_none ha) (hbfits.moved_ne_none hb), hstart, hstop]
  rfl

end Span

section Moved

variable {k : UInt32}

/-- The latitude of a tree that is moved. -/
def Latitude.moved (k : UInt32) : Latitude :=
  ⟨False, fun s t => t = s.moved k ∧ s.Fits k⟩

theorem Document.localByte_add {offset offset' base base' : UInt32}
    (hoffset : offset'.toNat = offset.toNat + k.toNat)
    (hbase : base'.toNat = base.toNat + k.toNat) :
    Document.localByte offset' base' = Document.localByte offset base := by
  rw [Document.localByte_eq, Document.localByte_eq, hoffset, hbase, Nat.add_sub_add_right]

/-- A tree and the base it is read against may be moved together. -/
theorem Latitude.sameBytes_moved {base base' : UInt32}
    (hbase : base'.toNat = base.toNat + k.toNat) :
    (Latitude.moved k).SameBytes base base' where
  strict := id
  start := by
    rintro s _ ⟨rfl, hfits⟩
    exact Document.localByte_add hfits.toNat_start hbase
  stop := by
    rintro s _ ⟨rfl, hfits⟩
    exact Document.localByte_add hfits.toNat_stop hbase
  same := by
    rintro s _ t _ ⟨rfl, -⟩ ⟨rfl, -⟩
    exact (Span.moved_injective k).eq_iff

namespace Node

/-- Every node of the tree stands somewhere, and can be moved. -/
def Movable (k : UInt32) (tree : Node) : Prop :=
  ∀ n ∈ tree.preorder, n.span ≠ .none ∧ n.span.Fits k

theorem Movable.child {n : Node} (h : n.Movable k) {c : ChildRef × Node} (hc : c ∈ n.children) :
    c.2.Movable k :=
  fun m hm => h m (mem_preorder_of_child hc hm)

theorem Movable.self {n : Node} (h : n.Movable k) : n.span ≠ .none ∧ n.span.Fits k :=
  h n n.mem_preorder_self

/-- Also a pair, which has no span of its own, moves as a whole. -/
theorem Movable.span_mapSpans {n : Node} (h : n.Movable k) :
    (n.mapSpans (.moved k)).span = n.span.moved k := by
  induction n using Node.induction with
  | step n ih =>
      cases n with
      | pair kind key value =>
          have hkey := h.child (key_mem_children kind key value)
          have hvalue := h.child (value_mem_children kind key value)
          have hkeyspan := ih _ (key_mem_children kind key value) hkey
          have hvaluespan := ih _ (value_mem_children kind key value) hvalue
          rw [mapSpans, span, span, hkeyspan, hvaluespan]
          exact Span.moved_union hkey.self.1 hvalue.self.1 hkey.self.2 hvalue.self.2
      | _ => rfl

theorem Movable.placed {tree : Node} (h : tree.Movable k) :
    tree.Placed (.moved k) (.moved k) := by
  have hall : ∀ n ∈ tree.preorder, n.Movable k :=
    forall_mem_preorder h fun _ hn _ hc => hn.child hc
  intro n hn
  exact ⟨(hall n hn).span_mapSpans, (hall n hn).self.2⟩

end Node

namespace Assist

/-- The base of a tree is past what precedes the first token. -/
theorem toNat_spanBase {document : Document} {tree : Node}
    (htrivia : document.trivia ≤ tree.span.start.toNat) :
    (spanBase document tree).toNat = tree.span.start.toNat - document.trivia := by
  have hlt : document.trivia < UInt32.size := Nat.lt_of_le_of_lt htrivia tree.span.start.toNat_lt
  have hbytes := Document.localByte_eq tree.span.start (UInt32.ofNat document.trivia)
  rw [UInt32.toNat_ofNat_of_lt' hlt] at hbytes
  exact hbytes

/-- The base moves with the tree. -/
theorem spanBase_moved {document : Document} {tree : Node}
    (htrivia : document.trivia ≤ tree.span.start.toNat) (hmovable : tree.Movable k) :
    (spanBase document (tree.mapSpans (.moved k))).toNat =
      (spanBase document tree).toNat + k.toNat := by
  have hstart : (tree.mapSpans (.moved k)).span.start.toNat =
      tree.span.start.toNat + k.toNat := by
    rw [hmovable.span_mapSpans]
    exact hmovable.self.2.toNat_start
  rw [toNat_spanBase htrivia, toNat_spanBase (by omega), hstart]
  omega

/-- Hovers, completions and swatches do not depend on the offset at which the
parser has put the file. The tree must not start before the first token of the
document, each of its nodes must stand somewhere, and no span may pass the
largest offset. -/
theorem answers_moved (document : Document) {tree : Node}
    (htrivia : document.trivia ≤ tree.span.start.toNat) (hmovable : tree.Movable k)
    (modules : List String) (position : Position) (normalize : Normalization) (token : Token) :
    hover? document (tree.mapSpans (.moved k)) (.withModules modules) position normalize token =
        hover? document tree (.withModules modules) position normalize token ∧
      completions? document (tree.mapSpans (.moved k)) (.withModules modules) position token =
        completions? document tree (.withModules modules) position token ∧
      swatches? document (tree.mapSpans (.moved k)) (.withModules modules) token =
        swatches? document tree (.withModules modules) token := by
  have hsame := Latitude.sameBytes_moved (spanBase_moved htrivia hmovable)
  have htree := hmovable.placed
  have htracker : (Tracker.withModules modules).Parallel (.moved k) (.withModules modules) :=
    .of_no_frames rfl
  simp only [hover?_eq_answer, completions?_eq_answer, swatches?_eq_answer]
  refine ⟨?_, ?_, ?_⟩
  · let q : Hover.Query :=
      ⟨document, normalize, spanBase document tree, document.byteOfPosition position⟩
    apply answer_mapSpans hsame.strict htree _ (Hover.looksAlike (q := q) hsame)
    · exact ⟨htracker, rfl, rfl, rfl⟩
    · intro node hnode
      exact congrArg not (Hover.touches_eq (q := q) hsame hnode.self)
  · let q : Completing.Query := ⟨document, spanBase document tree, position⟩
    apply answer_mapSpans hsame.strict htree _ (Completing.looksAlike (q := q) hsame)
    · exact ⟨htracker, rfl, rfl, rfl⟩
    · intro node hnode
      exact congrArg not (Completing.nears_eq (q := q) hsame hnode.self)
  · let q : Coloring.Query := ⟨document, spanBase document tree⟩
    apply answer_mapSpans hsame.strict htree _ (Coloring.looksAlike (q := q) hsame)
    · exact ⟨htracker, rfl, rfl, rfl⟩
    · intro node _
      rfl

/-- The tree of `stylex.create({a:{color:"red"}})`, from offset 1. -/
def createRed : Node :=
  let color : Node := .pair .property (.identifier ⟨19, 24⟩ "color" none) (.string ⟨25, 30⟩ "red")
  let style : Node := .pair .property (.identifier ⟨16, 17⟩ "a" none) (.object ⟨18, 31⟩ [color])
  let callee : Node :=
    .member ⟨1, 14⟩ (.identifier ⟨1, 7⟩ "stylex" none) (.identifier ⟨8, 14⟩ "create" none)
  .program .module ⟨1, 33⟩ [.call ⟨1, 33⟩ callee [⟨none, .object ⟨15, 32⟩ [style]⟩] none]

theorem movable_createRed : createRed.Movable 4096 := by
  unfold Node.Movable
  decide +kernel

/-- With the cursor on `color`, and the file put 4096 bytes further on, there is
a preview and a swatch as before. -/
theorem answers_moved_createRed :
    let document : Document :=
      .new "a.js" "javascript" 1 "stylex.create(\x7ba:\x7bcolor:\"red\"\x7d\x7d)"
    let moved := createRed.mapSpans (.moved 4096)
    let hover := hover? document createRed .new ⟨0, 20⟩ (⟨false⟩ : Normalizer) .never
    let swatches := swatches? document createRed .new .never
    document.trivia ≤ createRed.span.start.toNat ∧ createRed.Movable 4096 ∧
      hover? document moved .new ⟨0, 20⟩ (⟨false⟩ : Normalizer) .never = hover ∧
      hover.toOption.join.isSome = true ∧
      swatches? document moved .new .never = swatches ∧
      swatches.toOption.join.map List.length = some 1 := by
  intro document moved hover swatches
  have htrivia : document.trivia ≤ createRed.span.start.toNat := by decide +kernel
  obtain ⟨hhover, -, hswatches⟩ := answers_moved document htrivia movable_createRed
    defaultModules ⟨0, 20⟩ (⟨false⟩ : Normalizer) .never
  exact ⟨htrivia, movable_createRed, hhover, by decide +kernel, hswatches, by decide +kernel⟩

end Assist

end Moved

end StyleSense
