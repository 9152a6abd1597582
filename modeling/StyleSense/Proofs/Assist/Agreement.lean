/-
# Two views of a declaration

Between a style call and a string in it stand the keys of nested objects. A
completion takes the second of them for the property of the string, and a hover
over the last one previews the innermost that names a property. The two agree
where these are the same key, whatever stands around it: conditions inside of
it, a class or a step of an animation outside.

Where a condition takes the second place, the completion takes it for a
property, and the hover does not.
-/

import StyleSense.Proofs.Assist.Descent

namespace StyleSense

namespace Assist

open StyleSense.Style StyleSense.Visitor

variable {α β : Type}

/-- The way from an object at a place through nested objects to a value, with
what the keys on it are read as. Each object is left by one of its children, and
a pair by its second. -/
inductive Declares (reads : Path → Node → String → Prop) (value : Node) :
    Path → Node → Path → List String → Prop
  | last {place : Path} {span : Span} {properties : List Node} {i : Nat} {c : ChildRef × Node}
      {key : Node} {name : String} (hc : (Node.object span properties).children[i]? = some c)
      (hpair : c.2 = .pair .property key value) (hkey : reads (place ++ [i]) key name) :
      Declares reads value place (.object span properties) [i, 1] [name]
  | nested {place path : Path} {span : Span} {properties : List Node} {i : Nat}
      {c : ChildRef × Node} {key inner : Node} {name : String} {names : List String}
      (hc : (Node.object span properties).children[i]? = some c)
      (hpair : c.2 = .pair .property key inner) (hkey : reads (place ++ [i]) key name)
      (hinner : Declares reads value (place ++ [i, 1]) inner path names) :
      Declares reads value place (.object span properties) (i :: 1 :: path) (name :: names)

/-- Whenever a walk enters the pair at a place, its key is read as the name. -/
def ReadsAs (log : List (Step (Notes β) α)) (place : Path) (key : Node) (name : String) : Prop :=
  ∀ p ∈ log, p.hook = .enter → p.path = place → p.memory.tracker.propertyKey? key = some name

/-- Whenever a walk enters the call at a place, it is a style call. -/
def CallsAs (log : List (Step (Notes β) α)) (place : Path) (callee : Node) (kind : CallKind) :
    Prop :=
  ∀ c ∈ log, c.hook = .enter → c.path = place → styleCall? c.memory.tracker callee = some kind

variable {reads : Path → Node → String → Prop} {value object tree : Node} {place path : Path}
  {names : List String}

theorem Declares.ne_nil (h : Declares reads value place object path names) :
    path ≠ [] ∧ names ≠ [] := by
  cases h with
  | last => exact ⟨List.cons_ne_nil _ _, List.cons_ne_nil _ _⟩
  | nested => exact ⟨List.cons_ne_nil _ _, List.cons_ne_nil _ _⟩

/-- The value is the second child of its pair. -/
theorem Declares.path_eq (h : Declares reads value place object path names) :
    path = path.dropLast ++ [1] := by
  induction h with
  | last => rfl
  | nested hc hpair hkey hinner ih =>
      rw [List.dropLast_cons_of_ne_nil (List.cons_ne_nil _ _),
        List.dropLast_cons_of_ne_nil hinner.ne_nil.1, List.cons_append, List.cons_append, ← ih]

theorem at?_child {n : Node} {i : Nat} {c : ChildRef × Node} (htree : tree.at? place = some n)
    (hc : n.children[i]? = some c) : tree.at? (place ++ [i]) = some c.2 := by
  rw [Node.at?_append, htree]
  exact Node.at?_cons hc []

/-- The value of a pair is its second child. -/
theorem at?_value {n key inner : Node} {i : Nat} {c : ChildRef × Node}
    (htree : tree.at? place = some n) (hc : n.children[i]? = some c)
    (hpair : c.2 = .pair .property key inner) : tree.at? (place ++ [i, 1]) = some inner := by
  have hplace := at?_child htree hc
  rw [hpair] at hplace
  rw [show place ++ [i, 1] = (place ++ [i]) ++ [1] by simp]
  exact at?_child (c := (.whole .value, inner)) hplace rfl

section

variable {token : Token} {prunes : Node → Bool}
  {look : Node → Option Node → α → Notes β → Flow α × Notes β} {start : α} {notes : Notes β}
  {s : Step (Notes β) α}

/-- A pair in an object receives what the object did. -/
theorem entered_pair (hs : s ∈ (visitor token prunes look).steps tree none start notes)
    (henter : s.hook = .enter)
    (hobject : ∀ span properties parent place noted,
      (look (.object span properties) parent place noted).1 = .continue)
    {span : Span} {properties : List Node} {i : Nat}
    (htree : tree.at? place = some (.object span properties)) (hpath : s.path = place ++ [i]) :
    ∃ o ∈ (visitor token prunes look).steps tree none start notes,
      o.hook = .enter ∧ o.path = place ∧ s.state = o.state := by
  obtain ⟨o, ho, hohook, hopath, hnode, hstate⟩ := entered_from hs henter hpath
  have hobj : o.node = .object span properties := Option.some.inj (hnode.symm.trans htree)
  have hanswer := answer_eq_look ho hohook fun noted => by rw [hobj]; rfl
  rw [hobj, hobject] at hanswer
  refine ⟨o, ho, hohook, hopath, ?_⟩
  rw [hstate, hanswer]
  rfl

/-- The value of a pair receives what looking at the pair hands down. -/
theorem entered_value (hs : s ∈ (visitor token prunes look).steps tree none start notes)
    (henter : s.hook = .enter) {key inner : Node}
    (htree : tree.at? place = some (.pair .property key inner)) (hpath : s.path = place ++ [1]) :
    ∃ p ∈ (visitor token prunes look).steps tree none start notes,
      p.hook = .enter ∧ p.path = place ∧
        s.state = (look (.pair .property key inner) p.parent p.state p.memory).1.handed p.state := by
  obtain ⟨p, hp, hphook, hppath, hnode, hstate⟩ := entered_from hs henter hpath
  have hpair : p.node = .pair .property key inner := Option.some.inj (hnode.symm.trans htree)
  have hanswer := answer_eq_look hp hphook fun noted => by rw [hpair]; rfl
  rw [hpair] at hanswer
  exact ⟨p, hp, hphook, hppath, hanswer ▸ hstate⟩

/-- A node that is entered below a call received what looking at the call hands
down. -/
theorem entered_argument (hs : s ∈ (visitor token prunes look).steps tree none start notes)
    (henter : s.hook = .enter) {span : Span} {callee : Node} {arguments : List (Argument Node)}
    {types : Option Node} (htree : tree.at? place = some (.call span callee arguments types))
    {index : Nat} (hpath : s.path = place ++ [index]) :
    ∃ c ∈ (visitor token prunes look).steps tree none start notes,
      c.hook = .enter ∧ c.path = place ∧
        s.state = (look (.call span callee arguments types) c.parent c.state
          c.memory).1.handed c.state := by
  obtain ⟨c, hc, hchook, hcpath, hnode, hstate⟩ := entered_from hs henter hpath
  have hcall : c.node = .call span callee arguments types :=
    Option.some.inj (hnode.symm.trans htree)
  have hanswer := answer_eq_look hc hchook fun noted => by rw [hcall]; rfl
  rw [hcall] at hanswer
  exact ⟨c, hc, hchook, hcpath, hanswer ▸ hstate⟩

/-- What an analysis makes of keys below a call: an object hands on what it
received, and a key above an object is counted in. -/
structure Counts (look : Node → Option Node → α → Notes β → Flow α × Notes β)
    (within : α → Prop) (keyed : α → String → α) : Prop where
  object : ∀ span properties parent state noted,
    (look (.object span properties) parent state noted).1 = .continue
  pair : ∀ {key span properties name parent state} {noted : Notes β}, within state →
    noted.tracker.propertyKey? key = some name →
      (look (.pair .property key (.object span properties)) parent state noted).1 =
        .replace (keyed state name)
  stays : ∀ {state name}, within state → within (keyed state name)

/-- At the pair of a value all keys on the way are counted but its own, which is
read as the last of the names. -/
theorem state_of_declares {within : α → Prop} {keyed : α → String → α}
    (hcounts : Counts look within keyed)
    (hreads : ∀ place key name, reads place key name →
      ReadsAs ((visitor token prunes look).steps tree none start notes) place key name)
    (h : Declares reads value place object path names) (htree : tree.at? place = some object)
    (hs : s ∈ (visitor token prunes look).steps tree none start notes)
    (henter : s.hook = .enter) (hpath : s.path = place ++ path.dropLast) :
    (∃ key name, s.node = .pair .property key value ∧ names.getLast? = some name ∧
        s.memory.tracker.propertyKey? key = some name) ∧
      ∃ o ∈ (visitor token prunes look).steps tree none start notes,
        o.hook = .enter ∧ o.path = place ∧
          (within o.state → s.state = names.dropLast.foldl keyed o.state) := by
  induction h with
  | @last place span properties i c key name hc hpair hkey =>
      obtain ⟨o, ho, hohook, hopath, hsame⟩ := entered_pair hs henter hcounts.object htree hpath
      have hnode := (course_visit (visitor token prunes look) tree none start notes).node_eq
        (List.mem_map_of_mem hs)
      have hplace := at?_child htree hc
      rw [hpair] at hplace
      rw [show s.toEvent.path = _ from hpath] at hnode
      exact ⟨⟨key, name, Option.some.inj (hnode.symm.trans hplace), rfl,
        hreads _ _ _ hkey s hs henter hpath⟩, o, ho, hohook, hopath, fun _ => hsame⟩
  | @nested place path span properties i c key inner name names hc hpair hkey hinner ih =>
      obtain ⟨hpathne, hnamesne⟩ := hinner.ne_nil
      obtain ⟨hlast, o, ho, hohook, hopath, hstate⟩ := ih (at?_value htree hc hpair) (by
        rw [hpath, List.dropLast_cons_of_ne_nil (List.cons_ne_nil _ _),
          List.dropLast_cons_of_ne_nil hpathne]
        simp)
      obtain ⟨around, properties', rfl⟩ : ∃ span properties, inner = .object span properties := by
        cases hinner <;> exact ⟨_, _, rfl⟩
      have hplace := at?_child htree hc
      rw [hpair] at hplace
      obtain ⟨r, hr, hrhook, hrpath, hrstate⟩ :=
        entered_value ho hohook hplace (by rw [hopath]; simp)
      obtain ⟨o', ho', hohook', hopath', hsame⟩ :=
        entered_pair hr hrhook hcounts.object htree hrpath
      refine ⟨?_, o', ho', hohook', hopath', fun hwithin => ?_⟩
      · rwa [List.getLast?_cons_of_ne_nil hnamesne]
      · have hentered : o.state = keyed o'.state name := by
          rw [hrstate, hcounts.pair (hsame ▸ hwithin) (hreads _ _ _ hkey r hr hrhook hrpath), hsame]
          rfl
        rw [List.dropLast_cons_of_ne_nil hnamesne, List.foldl_cons, ← hentered]
        exact hstate (hentered ▸ hcounts.stays hwithin)

end

namespace Completing

/-- The place behind one more key. -/
def Place.keyed (place : Place) (name : String) : Place :=
  if place.depth = 2 then { place with property := some name, depth := 3 }
  else { place with depth := place.depth + 1 }

theorem Place.call_keyed (place : Place) (name : String) : (place.keyed name).call = place.call := by
  unfold keyed
  split <;> rfl

theorem enterPair_of_style {t : Tracker} {key inner : Node} {place : Place} {kind : CallKind}
    {name : String} (hcall : place.call = some kind) (hkind : kind.isTheme = false)
    (hkey : t.propertyKey? key = some name) :
    enterPair t key inner place = .replace (place.keyed name) := by
  obtain ⟨call, property, depth⟩ := place
  cases hcall
  simp only [enterPair, hkind, hkey, Place.keyed, Bool.false_eq_true, if_false]
  split <;> rfl

theorem Place.call_foldl_keyed (place : Place) (names : List String) :
    (names.foldl keyed place).call = place.call := by
  induction names generalizing place with
  | nil => rfl
  | cons name names ih => exact (ih _).trans (call_keyed place name)

/-- Behind three keys or more the property stays. -/
theorem Place.property_foldl_keyed {place : Place} (h : 3 ≤ place.depth) (names : List String) :
    (names.foldl keyed place).property = place.property := by
  induction names generalizing place with
  | nil => rfl
  | cons name names ih =>
      have hkeyed : place.keyed name = { place with depth := place.depth + 1 } :=
        if_neg (by omega)
      rw [List.foldl_cons, hkeyed]
      exact ih (Nat.le_succ_of_le h)

theorem counts_look {q : Query} {kind : CallKind} (hkind : kind.isTheme = false) :
    Counts (look q) (·.call = some kind) Place.keyed where
  object _ _ _ _ _ := rfl
  pair hcall hkey := enterPair_of_style hcall hkind hkey
  stays hcall := (Place.call_keyed _ _).trans hcall

/-- The suggestions in a declaration, for a cursor that is so many columns into
the string. -/
def suggestIn (q : Query) (declaration : Completion.Declaration) (start : Text.Position) :
    Except Text.CutError (List Completion.Suggestion) := do
  let inside := q.position.character.toNat - start.character.toNat
  let place := declaration.positionAt (declaration.mapOffset inside)
  let items ← Completion.complete declaration place
  pure (items.map fun item => { item with range := shift item.range q.position place })

theorem suggest_eq (q : Query) (property value : String) (start : Text.Position) :
    suggest q property value start = suggestIn q ⟨dashify property, value⟩ start := rfl

/-- The answer in a literal that the suggestions are for. -/
def answerWith (notes : Notes (List Completion.Suggestion)) :
    Except Text.CutError (List Completion.Suggestion) →
      Flow Place × Notes (List Completion.Suggestion)
  | .ok items => (.exit, { notes with found := items })
  | .error error => (.exit, { notes with failure := some (.cut error) })

/-- A string below a property is completed in a declaration of that property. -/
theorem enterLiteral_eq {q : Query} {span : Span} {place : Place} {kind : CallKind}
    {property : String} (hcall : place.call = some kind)
    (hproperty : place.property = some property) (value : String)
    (notes : Notes (List Completion.Suggestion)) :
    enterLiteral q span value place notes =
      if property = "content" then (.continue, notes)
      else if (q.document.rangeOfSpan span q.base).contains q.position then
        answerWith notes
          (suggestIn q ⟨dashify property, value⟩ (q.document.rangeOfSpan span q.base).start)
      else (.skip, notes) := by
  by_cases hcontent : property = "content"
  · rw [enterLiteral, if_pos (by rw [hproperty, hcontent]; simp), if_pos hcontent]
  · rw [enterLiteral, if_neg (by simp [hcall, hproperty, hcontent]), if_neg hcontent]
    dsimp only
    rw [hproperty, Option.getD_some, suggest_eq]
    generalize suggestIn q ⟨dashify property, value⟩ _ = suggestions
    cases (q.document.rangeOfSpan span q.base).contains q.position with
    | true => cases suggestions <;> rfl
    | false => rfl

/-- What a completion knows in a string below a style call: the second key is the
property. -/
theorem place_in_call {q : Query} {token : Token} {prunes : Node → Bool} {start : Place}
    {notes : Notes (List Completion.Suggestion)} {kind : CallKind}
    {s : Step (Notes (List Completion.Suggestion)) Place} (hkind : kind.isTheme = false)
    {span : Span} {callee : Node} {arguments : List (Argument Node)} {types : Option Node}
    (htree : tree.at? place = some (.call span callee arguments types)) {index : Nat}
    {argument : ChildRef × Node}
    (hargument : (Node.call span callee arguments types).children[index]? = some argument)
    (hcalls : CallsAs ((visitor token prunes (look q)).steps tree none start notes) place callee
      kind)
    (hreads : ∀ place key name, reads place key name →
      ReadsAs ((visitor token prunes (look q)).steps tree none start notes) place key name)
    {outer property : String}
    (h : Declares reads value (place ++ [index]) argument.2 path (outer :: property :: names))
    (hs : s ∈ (visitor token prunes (look q)).steps tree none start notes)
    (henter : s.hook = .enter) (hpath : s.path = place ++ index :: path) :
    s.state.call = some kind ∧ s.state.property = some property := by
  -- the string is entered from its pair, and its own key counts, too
  have hbelow : s.path = (place ++ index :: path.dropLast) ++ [1] := by
    rw [hpath, List.append_assoc, List.cons_append, ← h.path_eq]
  obtain ⟨p, hp, hphook, hppath, -, hreceived⟩ := entered_from hs henter hbelow
  obtain ⟨⟨key, name, hnode, hlast, hkey⟩, o, ho, hohook, hopath, hstate⟩ :=
    state_of_declares (counts_look hkind) hreads h (at?_child htree hargument) hp hphook
      (by rw [hppath]; simp)
  obtain ⟨c, hc, hchook, hcpath, hentered⟩ := entered_argument ho hohook htree hopath
  have hcall : o.state = { c.state with call := some kind, depth := 1 } := by
    rw [hentered, look, enterCall, hcalls c hc hchook hcpath]
    rfl
  have hcounted := hstate (by rw [hcall])
  have hwithin : p.state.call = some kind := by
    rw [hcounted, Place.call_foldl_keyed, hcall]
  have hanswer := answer_eq_look hp hphook fun noted => by rw [hnode]; rfl
  have hnames : s.state = (outer :: property :: names).foldl Place.keyed o.state := by
    rw [← List.dropLast_append_getLast? name hlast, List.foldl_concat, ← hcounted, hreceived,
      hanswer, hnode, look, enterPair_of_style hwithin hkind hkey]
    rfl
  let declared : Place := { c.state with call := some kind, property := some property, depth := 3 }
  have hdeep := Place.property_foldl_keyed (show 3 ≤ declared.depth from Nat.le_refl 3) names
  rw [hnames, Place.call_foldl_keyed, hcall]
  exact ⟨rfl, hdeep⟩

end Completing

namespace Hover

/-- The place one key further in. -/
def Place.keyed (place : Place) (name : String) : Place :=
  { place with parents := place.parents ++ [name] }

theorem Place.foldl_keyed (place : Place) (names : List String) :
    names.foldl keyed place = { place with parents := place.parents ++ names } := by
  induction names generalizing place with
  | nil => rw [List.append_nil]; rfl
  | cons name names ih =>
      rw [List.foldl_cons, ih, List.append_cons place.parents]
      rfl

/-- An object below a key is one level further in. -/
theorem enterPair_of_object {q : Query} {key : Node} {place : Place}
    {notes : Notes (Option Hover)} {kind : CallKind} {name : String}
    (hcall : place.call = some kind) (hkey : notes.tracker.propertyKey? key = some name)
    (span : Span) (properties : List Node) :
    enterPair q key (.object span properties) place notes =
      (.replace (place.keyed name), notes) := by
  simp only [enterPair, hcall, hkey, unwrap, isNested, if_true, Place.keyed]

theorem counts_look {q : Query} {kind : CallKind} :
    Counts (look q) (·.call = some kind) Place.keyed where
  object _ _ _ _ _ := rfl
  pair hcall hkey := congrArg Prod.fst (enterPair_of_object hcall hkey _ _)
  stays hcall := hcall

/-- A string below a key is a declaration. -/
theorem enterPair_of_string {q : Query} {key : Node} {span : Span} {text : String} {place : Place}
    {notes : Notes (Option Hover)} {kind : CallKind} {name : String}
    (hcall : place.call = some kind) (hkey : notes.tracker.propertyKey? key = some name) :
    enterPair q key (.string span text) place notes =
      if q.touches key.span then
        (.exit, { notes with
          found := preview? q ⟨kind, place.caller, place.parents, name, place.valueType⟩ key.span
            (notes.tracker.evaluate (.string span text)) })
      else (.continue, notes) := by
  simp only [enterPair, hcall, hkey, unwrap, isNested, isKeyframes, Bool.false_eq_true, if_false,
    Option.orElse_none]

/-- What a hover knows at the pair of a value below a style call. -/
theorem place_in_call {q : Query} {token : Token} {prunes : Node → Bool} {start : Place}
    {notes : Notes (Option Hover)} {kind : CallKind} {p : Step (Notes (Option Hover)) Place}
    {span : Span} {callee : Node} {arguments : List (Argument Node)} {types : Option Node}
    (htree : tree.at? place = some (.call span callee arguments types)) {index : Nat}
    {argument : ChildRef × Node}
    (hargument : (Node.call span callee arguments types).children[index]? = some argument)
    (hcalls : CallsAs ((visitor token prunes (look q)).steps tree none start notes) place callee
      kind)
    (hreads : ∀ place key name, reads place key name →
      ReadsAs ((visitor token prunes (look q)).steps tree none start notes) place key name)
    (h : Declares reads value (place ++ [index]) argument.2 path names)
    (hp : p ∈ (visitor token prunes (look q)).steps tree none start notes)
    (henter : p.hook = .enter) (hpath : p.path = place ++ index :: path.dropLast) :
    (∃ key name, p.node = .pair .property key value ∧ names.getLast? = some name ∧
        p.memory.tracker.propertyKey? key = some name) ∧
      p.state.call = some kind ∧ ∃ around, p.state.parents = around ++ names.dropLast := by
  obtain ⟨hkey, o, ho, hohook, hopath, hstate⟩ :=
    state_of_declares counts_look hreads h (at?_child htree hargument) hp henter
      (by rw [hpath]; simp)
  obtain ⟨c, hc, hchook, hcpath, hentered⟩ := entered_argument ho hohook htree hopath
  have hcall : o.state.call = some kind := by
    rw [hentered, look]
    simp only [enterCall, hcalls c hc hchook hcpath]
    rfl
  rw [hstate hcall, Place.foldl_keyed]
  exact ⟨hkey, hcall, o.state.parents, rfl⟩

end Hover

/-- What is declared is the innermost key that names a property. -/
theorem property_of_path {site : Site} {around names : List String} {property : String}
    (hkind : site.call.isTheme = false) (hpath : site.parents ++ [site.key] = around ++ names)
    (hfind : names.reverse.find? Site.isPropertyKey = some property) :
    site.property = property := by
  rw [Site.property, Site.path, hkind, if_neg Bool.false_ne_true, if_neg Bool.false_ne_true, hpath,
    List.reverse_append, List.find?_append, hfind]
  rfl

/-- A completion in a string and a hover over its key take the string for the
same declaration, if the second key below the style call is the innermost that
names a property: the hover previews a declaration of this property, and the
completion completes one, in which the string stands for the value. The texts
of `content` are not completed. -/
theorem property_agrees (document : Document) (tree : Node) (tracker : Tracker)
    (position position' : Text.Position) (normalize : Normalization) (token token' : Token)
    (place : Path) (index : Nat) {kind : CallKind} (hkind : kind.isTheme = false) {span : Span}
    {callee : Node} {arguments : List (Argument Node)} {types : Option Node}
    (htree : tree.at? place = some (.call span callee arguments types))
    {argument : ChildRef × Node}
    (hargument : (Node.call span callee arguments types).children[index]? = some argument)
    {literal : Span} {text : String} {path : Path} {outer property : String}
    {names : List String} :
    let q : Completing.Query := ⟨document, spanBase document tree, position⟩
    let q' : Hover.Query :=
      ⟨document, normalize, spanBase document tree, document.byteOfPosition position'⟩
    let completing := (Completing.searching document tree position token).steps tree none
      Completing.Place.outside (.start tracker [])
    let hovering := (Hover.searching document tree position' normalize token').steps tree none
      Hover.Place.outside (.start tracker none)
    let value : Node := .string literal text
    let range := document.rangeOfSpan literal (spanBase document tree)
    let keys := outer :: property :: names
    CallsAs completing place callee kind → CallsAs hovering place callee kind →
    Declares (fun place key name => ReadsAs completing place key name ∧
      ReadsAs hovering place key name) value (place ++ [index]) argument.2 path keys →
    keys.reverse.find? Site.isPropertyKey = some property →
    ∀ s ∈ completing, s.hook = .enter → s.path = place ++ index :: path →
    ∀ p ∈ hovering, p.hook = .enter → p.path = place ++ index :: path.dropLast →
      ∃ key site around, p.node = .pair .property key value ∧ site.call = kind ∧
        site.parents = around ++ keys.dropLast ∧ keys.getLast? = some site.key ∧
        site.property = property ∧
        Hover.enterPair q' key value p.state p.memory =
          (if q'.touches key.span then
            (.exit, { p.memory with
              found := Hover.preview? q' site key.span (p.memory.tracker.evaluate value) })
          else (.continue, p.memory)) ∧
        Completing.enterLiteral q literal text s.state s.memory =
          (if property = "content" then (.continue, s.memory)
          else if range.contains position then
            Completing.answerWith s.memory
              (Completing.suggestIn q ⟨dashify site.property, text⟩ range.start)
          else (.skip, s.memory)) := by
  intro q q' completing hovering value range keys hcalls hcalls' hdeclares hfind s hs henter hpath p
    hp hpenter hppath
  obtain ⟨hcall, hproperty⟩ := Completing.place_in_call hkind htree hargument hcalls
    (fun _ _ _ h => h.1) hdeclares hs henter hpath
  obtain ⟨⟨key, name, hnode, hlast, hkey⟩, hcall', around, hparents⟩ :=
    Hover.place_in_call htree hargument hcalls' (fun _ _ _ h => h.2) hdeclares hp hpenter hppath
  let site : Site := ⟨kind, p.state.caller, p.state.parents, name, p.state.valueType⟩
  have hpath : site.parents ++ [site.key] = around ++ keys := by
    rw [show site.parents = around ++ keys.dropLast from hparents, List.append_assoc,
      List.dropLast_append_getLast? name hlast]
  have hsite : site.property = property := property_of_path hkind hpath hfind
  refine ⟨key, site, around, hnode, rfl, hparents, hlast, hsite,
    Hover.enterPair_of_string hcall' hkey, ?_⟩
  rw [hsite]
  exact Completing.enterLiteral_eq hcall hproperty text s.memory

/-- The object `{a:{..:{..:"fl"}}}`, given the keys at the dots and the span of the
object between them. -/
def nestedStyle (first second : Node) (inner : Span) : Node :=
  let declared : Node := .object inner [.pair .property second (.string ⟨37, 41⟩ "fl")]
  let style : Node := .object ⟨18, 43⟩ [.pair .property first declared]
  .object ⟨15, 44⟩ [.pair .property (.identifier ⟨16, 17⟩ "a" none) style]

/-- The tree of `stylex.create({a:{..:{..:"fl"}}})`. -/
def createNested (first second : Node) (inner : Span) : Node :=
  let callee : Node :=
    .member ⟨1, 14⟩ (.identifier ⟨1, 7⟩ "stylex" none) (.identifier ⟨8, 14⟩ "create" none)
  let call : Node := .call ⟨1, 45⟩ callee [⟨none, nestedStyle first second inner⟩] none
  .program .module ⟨1, 45⟩ [.plain .expressionStatement ⟨1, 45⟩ [.one (some call)] []]

theorem declares_nestedStyle (reads : Path → Node → String → Prop) (first second : Node)
    (between : Span) {outer inner : String}
    (ha : reads [0, 0, 1, 0] (.identifier ⟨16, 17⟩ "a" none) "a")
    (hfirst : reads [0, 0, 1, 0, 1, 0] first outer)
    (hsecond : reads [0, 0, 1, 0, 1, 0, 1, 0] second inner) :
    Declares reads (.string ⟨37, 41⟩ "fl") [0, 0, 1] (nestedStyle first second between)
      [0, 1, 0, 1, 0, 1] ["a", outer, inner] :=
  .nested rfl rfl ha (.nested rfl rfl hfirst (.last rfl rfl hsecond))

theorem readsAs_identifier {log : List (Step (Notes β) α)} {span : Span} {name : String}
    {type : Option Node} : ReadsAs log place (.identifier span name type) name :=
  fun _ _ _ _ => by rw [Tracker.propertyKey?]

theorem readsAs_string {log : List (Step (Notes β) α)} {span : Span} {name : String} :
    ReadsAs log place (.string span name) name :=
  fun _ _ _ _ => by rw [Tracker.propertyKey?]

/-- Below a property, a condition is part of its value for both. -/
theorem property_agrees_condition :
    let tree := createNested (.identifier ⟨19, 26⟩ "display" none) (.string ⟨28, 36⟩ ":hover")
      ⟨27, 42⟩
    let document : Document :=
      .new "a.js" "javascript" 1 "stylex.create(\x7ba:\x7bdisplay:\x7b\":hover\":\"fl\"\x7d\x7d\x7d)"
    let q : Completing.Query := ⟨document, spanBase document tree, ⟨0, 39⟩⟩
    let completing := (Completing.searching document tree ⟨0, 39⟩ .never).steps tree none
      Completing.Place.outside (.start .new [])
    let hovering := (Hover.searching document tree ⟨0, 30⟩ (⟨false⟩ : Normalizer) .never).steps
      tree none Hover.Place.outside (.start .new none)
    let callee : Node :=
      .member ⟨1, 14⟩ (.identifier ⟨1, 7⟩ "stylex" none) (.identifier ⟨8, 14⟩ "create" none)
    let range := document.rangeOfSpan ⟨37, 41⟩ (spanBase document tree)
    CallsAs completing [0, 0] callee .create ∧ CallsAs hovering [0, 0] callee .create ∧
      Declares (fun place key name => ReadsAs completing place key name ∧
        ReadsAs hovering place key name) (.string ⟨37, 41⟩ "fl") [0, 0, 1]
        (nestedStyle (.identifier ⟨19, 26⟩ "display" none) (.string ⟨28, 36⟩ ":hover") ⟨27, 42⟩)
        [0, 1, 0, 1, 0, 1] ["a", "display", ":hover"] ∧
      ∃ s ∈ completing, s.hook = .enter ∧ s.path = [0, 0, 1, 0, 1, 0, 1, 0, 1] ∧
        ∃ p ∈ hovering, p.hook = .enter ∧ p.path = [0, 0, 1, 0, 1, 0, 1, 0] ∧
          ∃ site : Site, site.key = ":hover" ∧ site.property = "display" ∧
            Completing.enterLiteral q ⟨37, 41⟩ "fl" s.state s.memory =
              Completing.answerWith s.memory
                (Completing.suggestIn q ⟨dashify site.property, "fl"⟩ range.start) := by
  intro tree document q completing hovering callee range
  have hcalls : CallsAs completing [0, 0] callee .create := by
    unfold CallsAs
    decide +kernel
  have hcalls' : CallsAs hovering [0, 0] callee .create := by
    unfold CallsAs
    decide +kernel
  have hdeclares := declares_nestedStyle
    (fun place key name => ReadsAs completing place key name ∧ ReadsAs hovering place key name)
    (.identifier ⟨19, 26⟩ "display" none) (.string ⟨28, 36⟩ ":hover") ⟨27, 42⟩
    ⟨readsAs_identifier, readsAs_identifier⟩ ⟨readsAs_identifier, readsAs_identifier⟩
    ⟨readsAs_string, readsAs_string⟩
  have hcompletes : ∃ s ∈ completing, s.hook = .enter ∧
      s.path = [0, 0, 1, 0, 1, 0, 1, 0, 1] := by decide +kernel
  have hhovers : ∃ p ∈ hovering, p.hook = .enter ∧ p.path = [0, 0, 1, 0, 1, 0, 1, 0] := by
    decide +kernel
  obtain ⟨s, hs, henter, hpath⟩ := hcompletes
  obtain ⟨p, hp, henter', hpath'⟩ := hhovers
  have hfind : ["a", "display", ":hover"].reverse.find? Site.isPropertyKey = some "display" := by
    decide +kernel
  obtain ⟨key, site, around, -, -, -, hlast, hproperty, -, hcompleted⟩ :=
    property_agrees document tree .new ⟨0, 39⟩ ⟨0, 30⟩ (⟨false⟩ : Normalizer) .never .never
      [0, 0] 1 rfl rfl rfl hcalls hcalls' hdeclares hfind s hs henter hpath p hp henter' hpath'
  refine ⟨hcalls, hcalls', hdeclares, s, hs, henter, hpath, p, hp, henter', hpath', site,
    (Option.some.inj hlast).symm, hproperty, ?_⟩
  have hcontains : range.contains ⟨0, 39⟩ = true := by decide +kernel
  rw [if_neg (by decide), if_pos hcontains] at hcompleted
  exact hcompleted

/-- Where a condition stands in the place of the property, the completion takes
the condition for the property, and the hover does not: in a declaration of what
the hover previews there would be a suggestion. -/
theorem property_disagrees_condition :
    let tree := createNested (.string ⟨19, 27⟩ ":hover") (.identifier ⟨29, 36⟩ "display" none)
      ⟨28, 42⟩
    let document : Document :=
      .new "a.js" "javascript" 1 "stylex.create(\x7ba:\x7b\":hover\":\x7bdisplay:\"fl\"\x7d\x7d\x7d)"
    let q : Completing.Query := ⟨document, spanBase document tree, ⟨0, 39⟩⟩
    let completing := (Completing.searching document tree ⟨0, 39⟩ .never).steps tree none
      Completing.Place.outside (.start .new [])
    let hovering := (Hover.searching document tree ⟨0, 30⟩ (⟨false⟩ : Normalizer) .never).steps
      tree none Hover.Place.outside (.start .new none)
    let callee : Node :=
      .member ⟨1, 14⟩ (.identifier ⟨1, 7⟩ "stylex" none) (.identifier ⟨8, 14⟩ "create" none)
    let range := document.rangeOfSpan ⟨37, 41⟩ (spanBase document tree)
    CallsAs completing [0, 0] callee .create ∧ CallsAs hovering [0, 0] callee .create ∧
      Declares (fun place key name => ReadsAs completing place key name ∧
        ReadsAs hovering place key name) (.string ⟨37, 41⟩ "fl") [0, 0, 1]
        (nestedStyle (.string ⟨19, 27⟩ ":hover") (.identifier ⟨29, 36⟩ "display" none) ⟨28, 42⟩)
        [0, 1, 0, 1, 0, 1] ["a", ":hover", "display"] ∧
      (∃ s ∈ completing, s.hook = .enter ∧ s.path = [0, 0, 1, 0, 1, 0, 1, 0, 1] ∧
        s.state.call = some .create ∧ s.state.property = some ":hover") ∧
      completions? document tree .new ⟨0, 39⟩ .never = .ok (some ⟨[], true⟩) ∧
      (∃ p ∈ hovering, p.hook = .enter ∧ p.path = [0, 0, 1, 0, 1, 0, 1, 0] ∧
        p.state.call = some .create ∧ p.state.parents = ["a", ":hover"]) ∧
      (∀ site : Site, site.call = .create → site.parents = ["a", ":hover"] →
        site.key = "display" → site.property = "display") ∧
      Completing.suggestIn q ⟨dashify "display", "fl"⟩ range.start =
        .ok [⟨"flex", .value, ⟨⟨0, 37⟩, ⟨0, 39⟩⟩⟩] := by
  intro tree document q completing hovering callee range
  refine ⟨?_, ?_, ?_, by decide +kernel, by decide +kernel, by decide +kernel, ?_,
    by decide +kernel⟩
  · unfold CallsAs
    decide +kernel
  · unfold CallsAs
    decide +kernel
  · exact declares_nestedStyle _ _ _ _ ⟨readsAs_identifier, readsAs_identifier⟩
      ⟨readsAs_string, readsAs_string⟩ ⟨readsAs_identifier, readsAs_identifier⟩
  · rintro ⟨call, caller, parents, key, valueType⟩ hcall hparents hkey
    cases hcall
    cases hparents
    cases hkey
    exact property_of_path rfl (show _ = [] ++ ["a", ":hover", "display"] from rfl)
      (by decide +kernel)

end Assist

end StyleSense
