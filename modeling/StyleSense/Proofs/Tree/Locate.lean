/-
# Located leaves are where they say

A locator is asked for leaves one after another. Each is found at its first place at
or behind the end of the last one that was found, and a leaf without such a place
stands, without extent, where the search began. The cursor stays between two
characters, so that no search fails. For a word this rests on its first character: it
takes one byte, so the byte behind the start of a hit is the start of a character.
-/

import StyleSense.Proofs.Decimal.Notation
import StyleSense.Proofs.Text.Search
import StyleSense.Tree.Locate

namespace StyleSense

open StyleSense.Text

namespace Text

theorem utf8ByteSize_eq (s : String) : s.utf8ByteSize = byteLength s.toList := by
  have hofList (cs : List Char) : (String.ofList cs).utf8ByteSize = byteLength cs := by
    induction cs with
    | nil => rfl
    | cons c cs ih =>
        rw [String.ofList_cons, String.utf8ByteSize_append, String.utf8ByteSize_singleton, ih,
          byteLength_cons]
  rw [← hofList, String.ofList_toList]

end Text

/-- What a locator is asked for. -/
inductive Leaf
  | identifier (name : String)
  | number (value : Float)
  | boolean (value : Bool)
  | null
  | string (value : String)

/-- Neighbours that do not make a word longer. -/
def Locator.Untouched (before after : Option Char) : Prop :=
  touches before = false ∧ touches after = false

namespace Leaf

/-- The node of a leaf. -/
def node (span : Span) : Leaf → Node
  | identifier name => .identifier span name none
  | number value => .number span value
  | boolean value => .boolean span value
  | null => .null span
  | string value => .string span value

/-- A value between two quotes. -/
def quoted (value : String) (quote : Char) : List Char :=
  quote :: (value.toList ++ [quote])

/-- The texts that stand for a leaf: a word, or a value between quotes of either kind. -/
def spellings : Leaf → List (List Char)
  | identifier name => [name.toList]
  | number value => [(Decimal.formatNumber value).toList]
  | boolean value => [(if value then "true" else "false").toList]
  | null => ["null".toList]
  | string value => [quoted value '\'', quoted value '"']

/-- The neighbours between which a leaf counts. A word does not count as a part of a
longer word. -/
def Admits : Leaf → Option Char → Option Char → Prop
  | string _ => fun _ _ => True
  | _ => Locator.Untouched

/-- One of the texts for a leaf stands at byte `start`. -/
def StartsAt (leaf : Leaf) (source : List Char) (start : Nat) : Prop :=
  ∃ text ∈ leaf.spellings, StandsAt leaf.Admits text source start

/-- A name begins with an ASCII character, as every other word does. -/
def IsSearchable : Leaf → Prop
  | identifier name => StartsAscii name.toList
  | _ => True

@[simp] theorem span_node (span : Span) (leaf : Leaf) : (leaf.node span).span = span := by
  cases leaf <;> rfl

end Leaf

/-- The span is from byte `start` up to byte `stop` of a source that begins at `base`. -/
structure Span.IsAt (span : Span) (base : UInt32) (start stop : Nat) : Prop where
  start : span.start.toNat = base.toNat + start
  stop : span.stop.toNat = base.toNat + stop

theorem Span.isAt_mk {base : UInt32} {start stop : Nat} (hordered : start ≤ stop)
    (hfits : base.toNat + stop < UInt32.size) :
    IsAt ⟨base + UInt32.ofNat start, base + UInt32.ofNat stop⟩ base start stop := by
  have hadd {n : Nat} (hn : n ≤ stop) : (base + UInt32.ofNat n).toNat = base.toNat + n := by
    have hnat : (UInt32.ofNat n).toNat = n := UInt32.toNat_ofNat_of_lt' (by omega)
    have hsum : base.toNat + n < UInt32.size := by omega
    rw [UInt32.toNat_add, hnat, Nat.mod_eq_of_lt hsum]
  exact ⟨hadd hordered, hadd (Nat.le_refl _)⟩

/-- Where a leaf is that is looked for from `cursor` on, and where the search for the
next one begins. -/
inductive Located (source : List Char) (base : UInt32) (leaf : Leaf) (cursor : Nat) :
    Span → Nat → Prop
  | found {text : List Char} {start : Nat} {span : Span}
      (hfirst : IsFirst (leaf.StartsAt source) cursor (some start))
      (hmem : text ∈ leaf.spellings) (hstands : StandsAt leaf.Admits text source start)
      (hspan : span.IsAt base start (start + byteLength text)) :
      Located source base leaf cursor span (start + byteLength text)
  | missed {span : Span} (hnone : IsFirst (leaf.StartsAt source) cursor none)
      (hspan : span.IsAt base cursor cursor) : Located source base leaf cursor span cursor

/-- Leaves that are looked for from `cursor` on, their nodes, and where the last search
ended. Every search begins at a byte where the source can be cut. -/
inductive AllLocated (source : List Char) (base : UInt32) :
    Nat → List Leaf → List Node → Nat → Prop
  | nil (cursor : Nat) : AllLocated source base cursor [] [] cursor
  | cons {leaf : Leaf} {leaves : List Leaf} {nodes : List Node} {span : Span}
      {cursor stop last : Nat} (hcut : isBoundary source cursor = true)
      (hhead : Located source base leaf cursor span stop)
      (htail : AllLocated source base stop leaves nodes last) :
      AllLocated source base cursor (leaf :: leaves) (leaf.node span :: nodes) last

namespace Locator

/-- The next leaf. -/
def locate (l : Locator) : Leaf → Except CutError (Node × Locator)
  | .identifier name => l.identifier name
  | .number value => l.number value
  | .boolean value => l.boolean value
  | .null => l.null
  | .string value => .ok (l.string value)

/-- Several leaves, one after another. -/
def locateAll (l : Locator) : List Leaf → Except CutError (List Node × Locator)
  | [] => .ok ([], l)
  | leaf :: leaves => do
      let (node, l) ← l.locate leaf
      let (nodes, l) ← l.locateAll leaves
      pure (node :: nodes, l)

/-- The search begins between two characters, and no byte of the source is too far
behind for a span. -/
structure WellPlaced (l : Locator) : Prop where
  boundary : isBoundary l.source l.cursor = true
  fits : l.base.toNat + byteLength l.source < UInt32.size

variable {l : Locator} {leaf : Leaf} {word : List Char} {found : Option Nat} {width : Nat}

/-- The search for a word succeeds, and finds its first place. -/
theorem isFirst_findWord? (hword : StartsAscii word) (lead rest : List Char) :
    ∃ found, findWord? word lead.getLast? (byteLength lead) rest = .ok found ∧
      IsFirst (StandsAt Untouched word (lead ++ rest)) (byteLength lead) found := by
  obtain ⟨first, tail, rfl, hfirst⟩ := hword
  induction rest generalizing lead with
  | nil =>
      refine ⟨none, rfl, ?_⟩
      rw [List.append_nil]
      exact isFirst_none_of_end (List.cons_ne_nil _ _)
  | cons c rest ih =>
      obtain ⟨found, hfound, hbehind⟩ := ih (lead ++ [c])
      rw [List.getLast?_concat, byteLength_append, byteLength_cons, byteLength_nil,
        Nat.add_zero] at hfound
      rw [List.append_assoc, List.singleton_append] at hbehind
      have hskip (hnot : ¬StandsAt Untouched (first :: tail) (lead ++ c :: rest)
          (byteLength lead)) := IsFirst.of_cons (fun m h => h.start_isBoundary) hnot hbehind
      rw [findWord?]
      split
      next hstarts =>
        refine ⟨found, hfound, hskip fun h => ?_⟩
        rw [List.isPrefixOf_iff_prefix.2 (standsAt_byteLength_iff.1 h).1] at hstarts
        cases hstarts
      next hstarts =>
        rw [Bool.not_eq_true', Bool.not_eq_false, List.isPrefixOf_iff_prefix] at hstarts
        split
        next huntouched =>
          rw [Bool.and_eq_true, Bool.not_eq_true', Bool.not_eq_true'] at huntouched
          exact ⟨some (byteLength lead), rfl,
            isFirst_some_of_place (standsAt_byteLength_iff.2 ⟨hstarts, huntouched⟩)⟩
        next htouched =>
          -- A hit begins with the word's first character, which takes one byte.
          obtain ⟨rfl, -⟩ := List.cons_prefix_cons.1 hstarts
          have hsize := utf8Size_of_lt hfirst
          rw [if_pos hsize, ← hsize]
          refine ⟨found, hfound, hskip fun h => htouched ?_⟩
          obtain ⟨-, hbefore, hafter⟩ := standsAt_byteLength_iff.1 h
          rw [hbefore, hafter]
          rfl

/-- What is claimed for the first place of a leaf is where the leaf is. -/
theorem located_claim (h : l.WellPlaced)
    (hfirst : IsFirst (leaf.StartsAt l.source) l.cursor found)
    (hwidth : ∀ text ∈ leaf.spellings, byteLength text = width) :
    ∃ span stop, l.claim found width = (span, { l with cursor := stop }) ∧
      Located l.source l.base leaf l.cursor span stop := by
  have hfits := h.fits
  cases found with
  | none =>
      have hcursor := le_byteLength_of_isBoundary h.boundary
      have hspan : Span.IsAt _ l.base l.cursor l.cursor :=
        Span.isAt_mk (Nat.le_refl _) (by omega)
      exact ⟨_, _, rfl, .missed hfirst hspan⟩
  | some start =>
      obtain ⟨text, hmem, hstands⟩ := hfirst.1.2
      obtain rfl := hwidth text hmem
      have hstop := hstands.stop_le
      have hspan : Span.IsAt _ l.base start (start + byteLength text) :=
        Span.isAt_mk (Nat.le_add_right ..) (by omega)
      exact ⟨_, _, rfl, .found hfirst hmem hstands hspan⟩

theorem WellPlaced.exists_split (h : l.WellPlaced) :
    ∃ lead, l.source = lead ++ l.ahead ∧ byteLength lead = l.cursor ∧
      l.behind? = lead.getLast? := by
  obtain ⟨lead, rest, hsource, hlead⟩ := isBoundary_iff.1 h.boundary
  refine ⟨lead, ?_, hlead, ?_⟩
  · rw [ahead, hsource, ← hlead, dropBytes?_append, Option.getD_some]
  · rw [behind?, hsource, ← hlead, takeBytes?_append, Option.bind_some]

/-- A leaf that is a word is where it is located. -/
theorem word_located (h : l.WellPlaced) {text : String} (htext : StartsAscii text.toList)
    (leaf : Leaf) (hspellings : leaf.spellings = [text.toList])
    (hadmits : leaf.Admits = Untouched)
    (hlocate : l.locate leaf = do
      let (span, l) ← l.word text
      pure (leaf.node span, l)) :
    ∃ span stop, l.locate leaf = .ok (leaf.node span, { l with cursor := stop }) ∧
      Located l.source l.base leaf l.cursor span stop := by
  obtain ⟨lead, hsource, hlead, hbehind⟩ := h.exists_split
  obtain ⟨found, hfound, hfirst⟩ := isFirst_findWord? htext lead l.ahead
  rw [← hbehind, hlead] at hfound
  rw [← hsource, hlead] at hfirst
  have hplaces : leaf.StartsAt l.source = StandsAt Untouched text.toList l.source := by
    funext m
    simp only [Leaf.StartsAt, hspellings, hadmits, List.mem_singleton, exists_eq_left]
  rw [← hplaces] at hfirst
  have hwidth : ∀ text' ∈ leaf.spellings, byteLength text' = text.utf8ByteSize := by
    rw [hspellings, utf8ByteSize_eq]
    exact fun text' hmem => congrArg byteLength (List.mem_singleton.1 hmem)
  obtain ⟨span, stop, hclaim, hlocated⟩ := located_claim h hfirst hwidth
  have hword : l.word text = .ok (span, { l with cursor := stop }) := by
    rw [word, hfound, ← hclaim]
    rfl
  refine ⟨span, stop, ?_, hlocated⟩
  rw [hlocate, hword]
  rfl

/-- The first place of a value between quotes of one kind. -/
def firstQuoted? (l : Locator) (value : String) (quote : Char) : Option Nat :=
  (findBytes? (Leaf.quoted value quote) l.ahead).map (l.cursor + ·)

/-- Of the first places for the two kinds of quotes, the earlier one is claimed. -/
theorem string_eq (l : Locator) (value : String) :
    l.string value =
      let (span, l) := l.claim ((l.firstQuoted? value '\'').merge min (l.firstQuoted? value '"'))
        (value.utf8ByteSize + 2)
      (.string span value, l) := by
  unfold string firstQuoted? Leaf.quoted
  dsimp only
  cases findBytes? ('\'' :: (value.toList ++ ['\''])) l.ahead <;>
    cases findBytes? ('"' :: (value.toList ++ ['"'])) l.ahead
  case some.some a b =>
    rw [Option.map_some, Option.map_some, Option.map_some, Option.merge_some_some,
      Nat.add_min_add_left]
  all_goals rfl

theorem isFirst_firstQuoted? (h : l.WellPlaced) (value : String) (quote : Char) :
    IsFirst (StandsAt (fun _ _ => True) (Leaf.quoted value quote) l.source) l.cursor
      (l.firstQuoted? value quote) := by
  obtain ⟨lead, hsource, hlead, -⟩ := h.exists_split
  have hfirst := isFirst_findBytes? (List.cons_ne_nil quote (value.toList ++ [quote])) lead l.ahead
  rwa [← hsource, hlead] at hfirst

theorem byteLength_quoted (value : String) {quote : Char} (hquote : quote.utf8Size = 1) :
    byteLength (Leaf.quoted value quote) = value.utf8ByteSize + 2 := by
  rw [Leaf.quoted, byteLength_cons, byteLength_append, byteLength_cons, byteLength_nil, hquote,
    utf8ByteSize_eq]
  omega

/-- A value between quotes is where it is located. -/
theorem string_located (h : l.WellPlaced) (value : String) :
    ∃ span stop, l.string value = (.string span value, { l with cursor := stop }) ∧
      Located l.source l.base (.string value) l.cursor span stop := by
  have hwidth : ∀ text ∈ (Leaf.string value).spellings,
      byteLength text = value.utf8ByteSize + 2 := by
    simp only [Leaf.spellings, List.forall_mem_cons]
    exact ⟨byteLength_quoted value rfl, byteLength_quoted value rfl, List.forall_mem_nil _⟩
  have hplaces : (Leaf.string value).StartsAt l.source = fun m =>
      StandsAt (fun _ _ => True) (Leaf.quoted value '\'') l.source m ∨
        StandsAt (fun _ _ => True) (Leaf.quoted value '"') l.source m := by
    funext m
    simp only [Leaf.StartsAt, Leaf.spellings, Leaf.Admits, List.mem_cons, List.not_mem_nil,
      or_false, exists_eq_or_imp, exists_eq_left]
  have hfirst := (isFirst_firstQuoted? h value '\'').or (isFirst_firstQuoted? h value '"')
  rw [← hplaces] at hfirst
  obtain ⟨span, stop, hclaim, hlocated⟩ := located_claim h hfirst hwidth
  refine ⟨span, stop, ?_, hlocated⟩
  rw [string_eq, hclaim]

/-- A leaf is where it is located, and nothing but the cursor moves. -/
theorem locate_located (h : l.WellPlaced) (leaf : Leaf) (hleaf : leaf.IsSearchable) :
    ∃ span stop, l.locate leaf = .ok (leaf.node span, { l with cursor := stop }) ∧
      Located l.source l.base leaf l.cursor span stop := by
  cases leaf with
  | identifier name => exact word_located h hleaf (.identifier name) rfl rfl rfl
  | number value =>
      exact word_located h (Decimal.startsAscii_formatNumber value) (.number value) rfl rfl rfl
  | boolean value =>
      have hvalue : StartsAscii (if value then "true" else "false").toList := by
        cases value
        · exact ⟨'f', "alse".toList, rfl, by decide⟩
        · exact ⟨'t', "rue".toList, rfl, by decide⟩
      exact word_located h hvalue (.boolean value) rfl rfl rfl
  | null =>
      have hnull : StartsAscii "null".toList := ⟨'n', "ull".toList, rfl, by decide⟩
      exact word_located h hnull .null rfl rfl rfl
  | string value =>
      obtain ⟨span, stop, hstring, hlocated⟩ := string_located h value
      exact ⟨span, stop, congrArg Except.ok hstring, hlocated⟩

end Locator

section

variable {source : List Char} {base : UInt32} {leaf : Leaf} {leaves : List Leaf}
  {nodes : List Node} {span : Span} {cursor stop last : Nat}

/-- The next search begins between two characters again. -/
theorem Located.isBoundary_stop (h : Located source base leaf cursor span stop)
    (hcursor : isBoundary source cursor = true) : isBoundary source stop = true := by
  cases h with
  | found hfirst hmem hstands hspan => exact hstands.stop_isBoundary
  | missed hnone hspan => exact hcursor

/-- A leaf is not before its search began, nor behind the next one's beginning. -/
theorem Located.exists_start (h : Located source base leaf cursor span stop) :
    ∃ start, span.IsAt base start stop ∧ cursor ≤ start ∧ start ≤ stop := by
  cases h with
  | found hfirst hmem hstands hspan => exact ⟨_, hspan, hfirst.1.1, Nat.le_add_right ..⟩
  | missed hnone hspan => exact ⟨_, hspan, Nat.le_refl _, Nat.le_refl _⟩

theorem AllLocated.isBoundary_last (h : AllLocated source base cursor leaves nodes last)
    (hcursor : isBoundary source cursor = true) : isBoundary source last = true := by
  induction h with
  | nil cursor => exact hcursor
  | cons hcut hhead htail ih => exact ih (hhead.isBoundary_stop hcursor)

theorem AllLocated.le_last (h : AllLocated source base cursor leaves nodes last) :
    cursor ≤ last := by
  induction h with
  | nil cursor => exact Nat.le_refl _
  | cons hcut hhead htail ih =>
      obtain ⟨start, -, hcursor, hstart⟩ := hhead.exists_start
      omega

/-- All nodes are between the beginning of the first search and the end of the last. -/
theorem AllLocated.between (h : AllLocated source base cursor leaves nodes last) :
    ∀ node ∈ nodes, ∃ start stop, node.span.IsAt base start stop ∧ cursor ≤ start ∧
      start ≤ stop ∧ stop ≤ last := by
  induction h with
  | nil cursor => exact List.forall_mem_nil _
  | cons hcut hhead htail ih =>
      obtain ⟨start, hspan, hcursor, hstart⟩ := hhead.exists_start
      have hlast := htail.le_last
      rw [List.forall_mem_cons, Leaf.span_node]
      refine ⟨⟨start, _, hspan, hcursor, hstart, hlast⟩, fun node hnode => ?_⟩
      obtain ⟨start', stop', hspan', hcursor', hrest⟩ := ih node hnode
      exact ⟨start', stop', hspan', by omega, hrest⟩

/-- Each node ends before the next one begins. -/
theorem AllLocated.pairwise (h : AllLocated source base cursor leaves nodes last) :
    nodes.Pairwise fun a b => a.span.stop ≤ b.span.start := by
  induction h with
  | nil cursor => exact .nil
  | cons hcut hhead htail ih =>
      obtain ⟨start, hspan, -, -⟩ := hhead.exists_start
      refine .cons (fun node hnode => ?_) ih
      obtain ⟨start', stop', hspan', hcursor', -⟩ := htail.between node hnode
      rw [Leaf.span_node, UInt32.le_iff_toNat_le, hspan.stop, hspan'.start]
      omega

end

namespace Locator

variable {l : Locator}

/-- Leaves that are asked for one after another are located one after another. -/
theorem locateAll_located (h : l.WellPlaced) (leaves : List Leaf)
    (hleaves : ∀ leaf ∈ leaves, leaf.IsSearchable) :
    ∃ nodes last, l.locateAll leaves = .ok (nodes, { l with cursor := last }) ∧
      AllLocated l.source l.base l.cursor leaves nodes last := by
  induction leaves generalizing l with
  | nil => exact ⟨[], l.cursor, rfl, .nil l.cursor⟩
  | cons leaf leaves ih =>
      rw [List.forall_mem_cons] at hleaves
      obtain ⟨span, stop, hlocate, hlocated⟩ := locate_located h leaf hleaves.1
      have hnext : WellPlaced { l with cursor := stop } :=
        ⟨hlocated.isBoundary_stop h.boundary, h.fits⟩
      obtain ⟨nodes, last, hrest, hall⟩ := ih hnext hleaves.2
      refine ⟨leaf.node span :: nodes, last, ?_, .cons h.boundary hlocated hall⟩
      rw [locateAll, hlocate]
      dsimp only [bind, Except.bind]
      rw [hrest]
      rfl

/-- Leaves are located where they stand, within the source, and one behind the other. -/
theorem leaves_located (source : String) (base : UInt32)
    (hfits : base.toNat + byteLength source.toList < UInt32.size) (leaves : List Leaf)
    (hleaves : ∀ leaf ∈ leaves, leaf.IsSearchable) :
    ∃ nodes last,
      (new source base).locateAll leaves = .ok (nodes, { new source base with cursor := last }) ∧
      AllLocated source.toList base 0 leaves nodes last ∧
      (∀ node ∈ nodes, ∃ start stop, node.span.IsAt base start stop ∧ start ≤ stop ∧
        stop ≤ byteLength source.toList) ∧
      nodes.Pairwise fun a b => a.span.stop ≤ b.span.start := by
  have hstart : isBoundary source.toList 0 = true := isBoundary_zero _
  have hplaced : (new source base).WellPlaced := ⟨hstart, hfits⟩
  obtain ⟨nodes, last, hrun, hall⟩ := locateAll_located hplaced leaves hleaves
  have hlast : last ≤ byteLength source.toList :=
    le_byteLength_of_isBoundary (hall.isBoundary_last hstart)
  refine ⟨nodes, last, hrun, hall, fun node hnode => ?_, hall.pairwise⟩
  obtain ⟨start, stop, hspan, -, hordered, hstop⟩ := hall.between node hnode
  exact ⟨start, stop, hspan, hordered, hstop.trans hlast⟩

/-- The second `a` is not found within `ba`, and a leaf that is not there stands where the
last one ended. -/
theorem leaves_located_skipping :
    (1 : UInt32).toNat + byteLength "const aé = 'a' + ba + a;".toList < UInt32.size ∧
      (∀ leaf ∈ [Leaf.identifier "a", .string "a", .identifier "a", .null], leaf.IsSearchable) ∧
      AllLocated "const aé = 'a' + ba + a;".toList 1 0
        [.identifier "a", .string "a", .identifier "a", .null]
        [.identifier ⟨7, 8⟩ "a" none, .string ⟨13, 16⟩ "a", .identifier ⟨24, 25⟩ "a" none,
          .null ⟨25, 25⟩] 24 := by
  have hfits : (1 : UInt32).toNat + byteLength "const aé = 'a' + ba + a;".toList < UInt32.size := by
    decide
  have hname : (Leaf.identifier "a").IsSearchable := ⟨'a', [], rfl, by decide⟩
  have hleaves : ∀ leaf ∈ [Leaf.identifier "a", .string "a", .identifier "a", .null],
      leaf.IsSearchable := by
    simp only [List.forall_mem_cons]
    exact ⟨hname, trivial, hname, trivial, List.forall_mem_nil _⟩
  obtain ⟨nodes, last, hrun, hall, -⟩ := leaves_located _ 1 hfits _ hleaves
  have hvalue : (new "const aé = 'a' + ba + a;" 1).locateAll
      [.identifier "a", .string "a", .identifier "a", .null] =
      .ok ([.identifier ⟨7, 8⟩ "a" none, .string ⟨13, 16⟩ "a", .identifier ⟨24, 25⟩ "a" none,
        .null ⟨25, 25⟩], { new "const aé = 'a' + ba + a;" 1 with cursor := 24 }) := by
    rfl
  rw [hvalue] at hrun
  cases hrun
  exact ⟨hfits, hleaves, hall⟩

end Locator

end StyleSense
