/-
# What a completion replaces

A suggestion carries the range that it replaces. The range comes about in the
sheet of the declaration and is moved back onto the source, so it is right only
if the cursor, the sheet and the source agree on columns. In ASCII they do, for
every cursor but the one behind the closing quote: that one still counts as in
the literal, and in the sheet it has left the value.
-/

import StyleSense.Proofs.Assist.Descent
import StyleSense.Proofs.Completion.Keyword
import StyleSense.Proofs.Document

namespace StyleSense

open StyleSense.Text

namespace Document

/-- A span in which the document has a quote, a value as it is and the quote
again, on one line. -/
structure Quotes (d : Document) (base : UInt32) (span : Span) (quote : Char) (value : String) :
    Prop where
  text : d.textOfSpan? span base = some (String.ofList (quote :: value.toList ++ [quote]))
  line : '\n' ∉ quote :: value.toList

section

variable {d : Document} {base : UInt32} {span : Span} {quote : Char} {value : String}

theorem Quotes.exists_text (h : d.Quotes base span quote value)
    (hascii : IsAscii d.text.toList) :
    ∃ before after, d.text.toList = before ++ (quote :: value.toList ++ [quote]) ++ after ∧
      localByte span.start base = before.length ∧
      localByte span.stop base = before.length + (value.toList.length + 2) := by
  obtain ⟨part, hslice, hpart⟩ := Option.map_eq_some_iff.1 h.text
  rw [String.ofList_inj] at hpart
  subst hpart
  obtain ⟨before, after, htext, hstart, hstop⟩ := slice?_eq_some_iff.1 hslice
  have hall := hascii
  rw [htext, isAscii_append] at hall
  have hbefore := (isAscii_append.1 hall.1).1
  rw [byteLength_of_isAscii hbefore] at hstart
  rw [byteLength_of_isAscii hall.1, List.length_append, List.length_append, List.length_cons,
    List.length_singleton] at hstop
  exact ⟨before, after, htext, hstart.symm, hstop.symm⟩

theorem Quotes.not_mem (h : d.Quotes base span quote value) :
    '\n' ∉ quote :: value.toList ++ [quote] := by
  have hline := h.line
  rw [List.mem_append, List.mem_singleton]
  rintro (hmem | rfl)
  · exact hline hmem
  · exact hline List.mem_cons_self

/-- The value is a part of the document. -/
theorem Quotes.value_part (h : d.Quotes base span quote value) (hascii : IsAscii d.text.toList) :
    IsAscii value.toList ∧ value.toList.length < d.text.toList.length := by
  obtain ⟨before, after, htext, -⟩ := h.exists_text hascii
  constructor
  · have hall := hascii
    rw [htext, isAscii_append, isAscii_append] at hall
    exact (isAscii_append.1 (List.forall_mem_cons.1 hall.1.2).2).1
  · rw [htext, List.length_append, List.length_append, List.length_append, List.length_cons]
    omega

/-- Along the literal, columns count bytes. -/
theorem Quotes.columns (h : d.Quotes base span quote value) (hascii : IsAscii d.text.toList)
    (hlength : d.text.toList.length < UInt32.size) {i : Nat}
    (hi : i ≤ value.toList.length + 2) :
    (d.positionOfByte (localByte span.start base + i)).line =
        (d.rangeOfSpan span base).start.line ∧
      (d.positionOfByte (localByte span.start base + i)).character.toNat =
        (d.rangeOfSpan span base).start.character.toNat + i := by
  obtain ⟨before, after, htext, hfrom, -⟩ := h.exists_text hascii
  have hfirst : (d.rangeOfSpan span base).start = d.positionOfByte before.length :=
    congrArg d.positionOfByte hfrom
  rw [hfirst, hfrom]
  refine positionOfByte_add hascii hlength htext h.not_mem ?_
  rw [List.length_append, List.length_cons, List.length_singleton]
  exact hi

/-- A position in the literal, the end excepted, is so many bytes behind its
start, and at most behind the value. -/
theorem Quotes.exists_inside (h : d.Quotes base span quote value)
    (hascii : IsAscii d.text.toList) (hlength : d.text.toList.length < UInt32.size) {p : Position}
    (hcontains : (d.rangeOfSpan span base).contains p = true)
    (hstop : p ≠ (d.rangeOfSpan span base).stop) :
    ∃ inside, inside ≤ value.toList.length + 1 ∧
      p = d.positionOfByte (localByte span.start base + inside) ∧
      p.character.toNat = (d.rangeOfSpan span base).start.character.toNat + inside := by
  obtain ⟨before, after, -, hfrom, hto⟩ := h.exists_text hascii
  have hlast : (d.rangeOfSpan span base).stop =
      d.positionOfByte (localByte span.start base + (value.toList.length + 2)) :=
    congrArg d.positionOfByte (hfrom ▸ hto)
  obtain ⟨hlineStop, hcolumnStop⟩ := h.columns hascii hlength (Nat.le_refl _)
  rw [Range.contains, Bool.and_eq_true, Position.notAfter_iff, Position.notAfter_iff, hlast,
    hlineStop, hcolumnStop] at hcontains
  obtain ⟨inside, hinside⟩ : ∃ inside,
      p.character.toNat = (d.rangeOfSpan span base).start.character.toNat + inside :=
    Nat.exists_eq_add_of_le (by omega)
  obtain ⟨hlineAt, hcolumnAt⟩ := h.columns hascii hlength (show inside ≤ _ by omega)
  have hp : p = d.positionOfByte (localByte span.start base + inside) :=
    Position.ext_toNat (by rw [hlineAt]; omega) (by rw [hinside, hcolumnAt])
  refine ⟨inside, ?_, hp, hinside⟩
  by_contra hpast
  obtain rfl : inside = value.toList.length + 2 := by omega
  exact hstop (hp.trans hlast.symm)

/-- A part of the value is cut out of the document. -/
theorem Quotes.slice? (h : d.Quotes base span quote value) (hascii : IsAscii d.text.toList)
    {front part rest : List Char} (hvalue : value.toList = front ++ part ++ rest) :
    Text.slice? d.text.toList (localByte span.start base + 1 + front.length)
      (localByte span.start base + 1 + front.length + part.length) = some part := by
  obtain ⟨before, after, htext, hfrom, -⟩ := h.exists_text hascii
  have hcut : d.text.toList = (before ++ quote :: front) ++ part ++ (rest ++ [quote] ++ after) := by
    rw [htext, hvalue]
    simp only [List.append_assoc, List.cons_append]
  have hlead : IsAscii (before ++ quote :: front ++ part) := by
    rw [hcut, isAscii_append] at hascii
    exact hascii.1
  refine slice?_eq_some_iff.2 ⟨_, _, hcut, ?_, ?_⟩
  · rw [byteLength_of_isAscii (isAscii_append.1 hlead).1, List.length_append, List.length_cons,
      hfrom]
    omega
  · rw [byteLength_of_isAscii hlead, List.length_append, List.length_append, List.length_cons,
      hfrom]
    omega

end

end Document

namespace Assist

open StyleSense.Completion StyleSense.Style

/-- A suggestion that replaces the word before a position in a value: the longest
run of letters, digits and hyphens that ends there. `first` is the byte of the
document at which the value starts. -/
structure ReplacesWord (d : Document) (first : Nat) (value : List Char) (p : Position)
    (item : Suggestion) : Prop where
  stop : item.range.stop = p
  opening : (d.positionOfByte first).notAfter item.range.start = true
  closing : item.range.stop.notAfter (d.positionOfByte (first + value.length)) = true
  word : ∃ n ≤ value.length,
    let word := (value.take n).rtakeWhile isWordChar
    item.range = d.rangeOf (first + n - word.length) (first + n) ∧
      slice? d.text.toList (first + n - word.length) (first + n) = some word ∧
      lowerAscii word <+: item.label.toList

namespace Completing

theorem moved_self (x target : UInt32) : moved x target x = target := by
  rw [moved, show ((x.toNat : Int) + (target.toNat - x.toNat)).toNat = target.toNat by omega,
    UInt32.ofNat_toNat]

/-- What is some columns before the origin is as many before the target. -/
theorem toNat_moved {x target origin : UInt32} {n : Nat} (h : x.toNat + n = origin.toNat)
    (hn : n ≤ target.toNat) : (moved x target origin).toNat + n = target.toNat := by
  have hvalue : ((x.toNat : Int) + (target.toNat - origin.toNat)).toNat = target.toNat - n := by
    omega
  have hlt : target.toNat - n < UInt32.size := Nat.lt_of_le_of_lt (Nat.sub_le _ n) target.toNat_lt
  rw [moved, hvalue, UInt32.toNat_ofNat_of_lt' hlt]
  omega

/-- A range on one line that ends at the origin is moved to one that is as long
and ends at the target. -/
theorem shift_of_stop {range : Range} {target origin : Position} {n : Nat}
    (hstop : range.stop = origin) (hline : range.start.line = origin.line)
    (hcolumn : range.start.character.toNat + n = origin.character.toNat)
    (hn : n ≤ target.character.toNat) :
    (shift range target origin).stop = target ∧
      (shift range target origin).start.line = target.line ∧
      (shift range target origin).start.character.toNat + n = target.character.toNat := by
  refine ⟨?_, ?_, toNat_moved hcolumn hn⟩
  · subst hstop
    exact Position.ext_toNat (congrArg _ (moved_self _ _)) (congrArg _ (moved_self _ _))
  · show moved range.start.line target.line origin.line = _
    rw [hline, moved_self]

/-- Suggestions come from the sheet, with their ranges moved. -/
theorem exists_complete {q : Query} {property value : String} {start : Position}
    {items : List Suggestion} (h : suggest q property value start = .ok items)
    {item : Suggestion} (hitem : item ∈ items) :
    let declaration : Declaration := ⟨dashify property, value⟩
    let inside := q.position.character.toNat - start.character.toNat
    let place := declaration.positionAt (declaration.mapOffset inside)
    ∃ found, complete declaration place = .ok found ∧ ∃ suggestion ∈ found,
      item = { suggestion with range := shift suggestion.range q.position place } := by
  intro declaration inside place
  let move (suggestion : Suggestion) : Suggestion :=
    { suggestion with range := shift suggestion.range q.position place }
  have hbind : (complete declaration place >>= fun found => pure (found.map move)) =
      .ok items := h
  rcases hcomplete : complete declaration place with error | found
  · rw [hcomplete] at hbind
    cases hbind
  · rw [hcomplete] at hbind
    cases hbind
    obtain ⟨suggestion, hmem, rfl⟩ := List.mem_map.1 hitem
    exact ⟨found, rfl, suggestion, hmem, rfl⟩

/-- Where a cursor in a literal is not behind the closing quote, what is suggested
there replaces the word before it. -/
theorem replacesWord_of_suggest {q : Query} {span : Span} {quote : Char}
    {property value : String} (hascii : IsAscii q.document.text.toList)
    (hlength : q.document.text.toList.length < UInt32.size)
    (hquotes : q.document.Quotes q.base span quote value)
    (hproperty : IsAscii (dashify property).toList) (hline : '\n' ∉ (dashify property).toList)
    (hseparated : ¬": ".toList <:+: (dashify property).toList)
    (hcontains : (q.document.rangeOfSpan span q.base).contains q.position = true)
    (hstop : q.position ≠ (q.document.rangeOfSpan span q.base).stop) {items : List Suggestion}
    (hitems : suggest q property value (q.document.rangeOfSpan span q.base).start = .ok items)
    {item : Suggestion} (hitem : item ∈ items) :
    ReplacesWord q.document (Document.localByte span.start q.base + 1) value.toList q.position
      item := by
  obtain ⟨hvalue, hvalueLength⟩ := hquotes.value_part hascii
  have hplain : Declaration.Plain ⟨dashify property, value⟩ :=
    ⟨hproperty, hvalue, hline, fun hmem => hquotes.line (List.mem_cons_of_mem _ hmem), hseparated⟩
  obtain ⟨inside, hinside, hposition, hcolumn⟩ :=
    hquotes.exists_inside hascii hlength hcontains hstop
  have hfound := exists_complete hitems hitem
  dsimp only at hfound
  rw [hcolumn, Nat.add_sub_cancel_left] at hfound
  obtain ⟨found, hcomplete, suggestion, hmem, rfl⟩ := hfound
  -- the word as the sheet has it
  obtain ⟨cursor, hcursor⟩ : ∃ cursor, (⟨dashify property, value⟩ : Declaration).positionAt
      ((⟨dashify property, value⟩ : Declaration).mapOffset inside) = cursor := ⟨_, rfl⟩
  rw [hcursor] at hcomplete ⊢
  obtain ⟨word, hword⟩ : ∃ word, (value.toList.take (inside - 1)).rtakeWhile isWordChar = word :=
    ⟨_, rfl⟩
  obtain ⟨hpos, hsheetStop, hsheetLine, hsheetColumn, hlabel⟩ :=
    mem_complete hplain hinside (Nat.lt_trans hvalueLength hlength) hcursor hword hcomplete hmem
  obtain ⟨front, hfront⟩ : word <:+ value.toList.take (inside - 1) :=
    hword ▸ List.rtakeWhile_suffix _ _
  have hparts : front.length + word.length = inside - 1 := by
    rw [← List.length_append, hfront, List.length_take]
    omega
  -- moved back, it ends at the cursor and starts as many bytes before
  obtain ⟨hend, hlineMoved, hcolumnMoved⟩ := shift_of_stop hsheetStop hsheetLine hsheetColumn
    (show word.length ≤ q.position.character.toNat by omega)
  have hbegin : (shift suggestion.range q.position cursor).start =
      q.document.positionOfByte (Document.localByte span.start q.base + 1 + front.length) := by
    obtain ⟨hlineAt, hcolumnAt⟩ := hquotes.columns hascii hlength
      (show 1 + front.length ≤ value.toList.length + 2 by omega)
    obtain ⟨hlineCursor, -⟩ := hquotes.columns hascii hlength
      (show inside ≤ value.toList.length + 2 by omega)
    rw [← hposition] at hlineCursor
    rw [Nat.add_assoc]
    exact Position.ext_toNat (by rw [hlineMoved, hlineAt, hlineCursor]) (by omega)
  have hunits : unitLength q.document.text.toList < UInt32.size := by
    rw [unitLength_of_isAscii hascii]
    exact hlength
  obtain ⟨n, rfl⟩ : ∃ n, inside = 1 + n := Nat.exists_eq_add_of_le hpos
  rw [Nat.add_sub_cancel_left] at hword hfront hparts
  rw [← Nat.add_assoc] at hposition
  refine ⟨hend, ?_, ?_, n, by omega, ?_⟩
  · rw [hbegin]
    exact Document.positionOfByte_mono hunits (Nat.le_add_right _ _)
  · rw [hend, hposition]
    exact Document.positionOfByte_mono hunits (by omega)
  · dsimp only
    rw [hword, show Document.localByte span.start q.base + 1 + n - word.length =
      Document.localByte span.start q.base + 1 + front.length by omega]
    refine ⟨?_, ?_, hlabel⟩
    · rw [Document.rangeOf, ← hbegin, ← hposition]
      exact congrArg (Range.mk _) hend
    · rw [show Document.localByte span.start q.base + 1 + n =
        Document.localByte span.start q.base + 1 + front.length + word.length by omega]
      have hsplit : value.toList = front ++ word ++ value.toList.drop n := by
        rw [hfront, List.take_append_drop]
      exact hquotes.slice? hascii hsplit

/-- Only a literal that the cursor is in has something found. -/
theorem enterLiteral_of_found_ne {q : Query} {span : Span} {value : String} {place : Place}
    {notes : Notes (List Suggestion)}
    (h : (enterLiteral q span value place notes).2.found ≠ notes.found) :
    (enterLiteral q span value place notes).1 = .exit ∧
      (q.document.rangeOfSpan span q.base).contains q.position = true ∧
      suggest q (place.property.getD unknownProperty) value
        (q.document.rangeOfSpan span q.base).start =
          .ok (enterLiteral q span value place notes).2.found := by
  unfold enterLiteral at h ⊢
  split at h
  · exact absurd rfl h
  next hproperty =>
    rw [if_neg hproperty]
    dsimp only at h ⊢
    split at h
    · exact absurd rfl h
    next hcontains =>
      rw [if_neg hcontains]
      rw [Bool.not_eq_true, Bool.not_eq_false'] at hcontains
      generalize suggest q (place.property.getD unknownProperty) value
        (q.document.rangeOfSpan span q.base).start = suggestions at h ⊢
      rcases suggestions with error | items
      · exact absurd rfl h
      · exact ⟨rfl, hcontains, rfl⟩

theorem look_of_found_ne {q : Query} {node : Node} {parent : Option Node} {place : Place}
    {notes : Notes (List Suggestion)} (h : (look q node parent place notes).2.found ≠ notes.found) :
    ∃ span value, node = .string span value ∧
      look q node parent place notes = enterLiteral q span value place notes := by
  unfold look at h ⊢
  split at h
  · exact absurd rfl h
  · exact absurd rfl h
  next span value =>
    split at h
    · exact absurd rfl h
    next hkey => exact ⟨span, value, rfl, if_neg hkey⟩
  · exact absurd rfl h

/-- A step that finds something looks at a literal that the cursor is in. -/
theorem of_found_ne {q : Query} {token : Token} {prunes : Node → Bool}
    {s : Visitor.Step (Notes (List Suggestion)) Place}
    (hmakes : (visitor token prunes (look q)).Makes s) (h : s.next.found ≠ s.memory.found) :
    ∃ span value, s.hook = .enter ∧ s.node = .string span value ∧ s.answer = .exit ∧
      (q.document.rangeOfSpan span q.base).contains q.position = true ∧
      suggest q (s.state.property.getD unknownProperty) value
        (q.document.rangeOfSpan span q.base).start = .ok s.next.found := by
  obtain ⟨henter, noted, -, hfound, hlooked⟩ := looked_of_found_ne hmakes h
  have hchanged : (look q s.node s.parent s.state noted).2.found ≠ noted.found := by
    rw [← hlooked, hfound]
    exact h
  obtain ⟨span, value, hnode, hlook⟩ := look_of_found_ne hchanged
  rw [hlook] at hlooked hchanged
  obtain ⟨hanswer, hcontains, hsuggest⟩ := enterLiteral_of_found_ne hchanged
  rw [← hlooked] at hanswer hsuggest
  exact ⟨span, value, henter, hnode, hanswer, hcontains, hsuggest⟩

end Completing

/-- Every suggestion replaces the word before the cursor. If a completion suggests
anything, it ends at a string literal. If this is an ASCII document, in which the
literal is a quote, its value as it is and the same quote on one line, if its
property is ASCII, on one line and without a separator, and if the cursor is not
behind the closing quote, then what is suggested replaces the longest run of
letters, digits and hyphens before the cursor, between the quotes, and starts with
this run in lower case. -/
theorem suggestions_replace_word {document : Document} {tree : Node} {tracker : Tracker}
    {position : Position} {token : Token} (hascii : IsAscii document.text.toList)
    (hlength : document.text.toList.length < UInt32.size) {items : List Suggestion}
    {incomplete : Bool}
    (hanswer : completions? document tree tracker position token = .ok (some ⟨items, incomplete⟩))
    (hne : items ≠ []) :
    let v := Completing.searching document tree position token
    let base := spanBase document tree
    ∃ earlier s span value,
      v.steps tree none Completing.Place.outside (.start tracker []) = earlier ++ [s] ∧
      s.hook = .enter ∧ s.node = .string span value ∧ s.next.found = items ∧
      ∀ quote, document.Quotes base span quote value →
        let property := dashify (s.state.property.getD Completing.unknownProperty)
        IsAscii property.toList → '\n' ∉ property.toList → ¬": ".toList <:+: property.toList →
        position ≠ (document.rangeOfSpan span base).stop →
        ∀ item ∈ items, ReplacesWord document (Document.localByte span.start base + 1)
          value.toList position item := by
  intro v base
  let notes : Notes (List Suggestion) := .start tracker []
  have hfound : (v.visit tree none Completing.Place.outside notes).2.found = items :=
    congrArg CompletionList.items (Notes.found_of_finish hanswer)
  obtain ⟨hthreaded, hmakes⟩ := v.threaded_visit tree none Completing.Place.outside notes
  obtain ⟨earlier, s, later, hsteps, hchanged⟩ :=
    hthreaded.exists_ne (·.found) (by rw [hfound]; exact hne)
  obtain ⟨span, value, henter, hnode, hexit, hcontains, hsuggest⟩ :=
    Completing.of_found_ne (hmakes s (by rw [hsteps]; simp)).1 hchanged
  -- what is found ends the walk, so it is what was found last
  obtain rfl := (v.exit_visit tree none Completing.Place.outside notes).2 _ _ _ hsteps hexit
  rw [hsteps] at hthreaded
  obtain ⟨middle, -, -, hlast⟩ := Visitor.threaded_append.1 hthreaded
  have hnext : s.next.found = items := by
    rw [← hfound, ← hlast]
  rw [hnext] at hsuggest
  refine ⟨earlier, s, span, value, hsteps, henter, hnode, hnext, ?_⟩
  intro quote hquotes property hproperty hline hseparated hstop item hitem
  exact Completing.replacesWord_of_suggest (q := ⟨document, base, position⟩) hascii hlength hquotes
    hproperty hline hseparated hcontains hstop hsuggest hitem

/-- The document `stylex.create({a:{top:"un"}})`. -/
def topDocument : Document :=
  .new "a.js" "javascript" 1 "stylex.create(\x7ba:\x7btop:\"un\"\x7d\x7d)"

/-- Its tree. -/
def topTree : Node :=
  let callee : Node :=
    .member ⟨1, 14⟩ (.identifier ⟨1, 7⟩ "stylex" none) (.identifier ⟨8, 14⟩ "create" none)
  let top : Node := .pair .property (.identifier ⟨19, 22⟩ "top" none) (.string ⟨23, 27⟩ "un")
  let style : Node := .pair .property (.identifier ⟨16, 17⟩ "a" none) (.object ⟨18, 28⟩ [top])
  let call : Node := .call ⟨1, 30⟩ callee [⟨none, .object ⟨15, 29⟩ [style]⟩] none
  .program .module ⟨1, 30⟩ [.plain .expressionStatement ⟨1, 30⟩ [.one (some call)] []]

theorem quotes_topDocument :
    topDocument.Quotes (spanBase topDocument topTree) ⟨23, 27⟩ '"' "un" where
  text := by decide +kernel
  line := by decide

/-- With the cursor behind it, the word is replaced. -/
theorem suggestions_replace_word_top :
    IsAscii topDocument.text.toList ∧ topDocument.text.toList.length < UInt32.size ∧
      completions? topDocument topTree .new ⟨0, 25⟩ .never =
        .ok (some ⟨[⟨"unset", .keyword, ⟨⟨0, 23⟩, ⟨0, 25⟩⟩⟩], true⟩) ∧
      ReplacesWord topDocument 23 "un".toList ⟨0, 25⟩ ⟨"unset", .keyword, ⟨⟨0, 23⟩, ⟨0, 25⟩⟩⟩ := by
  have hascii : IsAscii topDocument.text.toList := by decide +kernel
  have hlength : topDocument.text.toList.length < UInt32.size := by decide +kernel
  have hanswer : completions? topDocument topTree .new ⟨0, 25⟩ .never =
      .ok (some ⟨[⟨"unset", .keyword, ⟨⟨0, 23⟩, ⟨0, 25⟩⟩⟩], true⟩) := by decide +kernel
  obtain ⟨earlier, s, span, value, hsteps, -, hnode, -, hreplaces⟩ :=
    suggestions_replace_word hascii hlength hanswer (List.cons_ne_nil _ _)
  have hlast : (((Completing.searching topDocument topTree ⟨0, 25⟩ .never).steps topTree none
      Completing.Place.outside (.start .new [])).getLast?.any fun s => s.state.property = some "top" ∧
        s.node.span = ⟨23, 27⟩ ∧ s.node.stringValue? = some "un") = true := by decide +kernel
  rw [hsteps, List.getLast?_concat, Option.any_some, hnode] at hlast
  obtain ⟨hproperty, rfl, hvalue⟩ := of_decide_eq_true hlast
  obtain rfl := Option.some.inj hvalue
  rw [hproperty] at hreplaces
  have hreplaced := hreplaces '"' quotes_topDocument (by decide +kernel) (by decide +kernel)
    (by decide +kernel) (by decide +kernel) _ List.mem_cons_self
  have hfirst : Document.localByte (Span.mk 23 27).start (spanBase topDocument topTree) + 1 = 23 := by
    decide +kernel
  rw [hfirst] at hreplaced
  exact ⟨hascii, hlength, hanswer, hreplaced⟩

/-- With the cursor behind the closing quote, every keyword is suggested there. -/
theorem suggestions_behind_quote_top :
    let range : Range := ⟨⟨0, 26⟩, ⟨0, 26⟩⟩
    let items : List Suggestion := ["inherit", "initial", "revert", "revert-layer", "unset"].map
      fun label => ⟨label, .keyword, range⟩
    IsAscii topDocument.text.toList ∧ topDocument.text.toList.length < UInt32.size ∧
      topDocument.Quotes (spanBase topDocument topTree) ⟨23, 27⟩ '"' "un" ∧
      completions? topDocument topTree .new ⟨0, 26⟩ .never = .ok (some ⟨items, true⟩) ∧
      ∀ item ∈ items, ¬ReplacesWord topDocument 23 "un".toList ⟨0, 26⟩ item := by
  intro range items
  refine ⟨by decide +kernel, by decide +kernel, quotes_topDocument, by decide +kernel,
    fun item hitem hreplaces => ?_⟩
  obtain ⟨label, -, rfl⟩ := List.mem_map.1 hitem
  have hclosing : range.stop.notAfter (topDocument.positionOfByte (23 + "un".toList.length)) =
      false := by decide +kernel
  exact absurd hreplaces.closing (by rw [hclosing]; exact Bool.false_ne_true)

end Assist

end StyleSense
