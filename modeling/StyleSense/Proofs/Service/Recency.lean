/-
# Which trees are kept

There is room for twenty trees, and the one that was not used for longest goes
first. What is kept of a document is described by the record of the run: `held`
has the trees in the order of their last use as if there were room for any
number of them, and a tree is missing only if twenty others came in front of it
since it was last used (`crowded`).

An exchange does the same to the trees that are kept and to those that are held
(`Exchange.touched`), but for the cut to twenty that the session makes
(`trees_reply`). So the kept trees stay in the order of the held ones, and what
is cut off stands behind twenty others there as well.
-/

import StyleSense.Proofs.Service.Coherence

namespace StyleSense.Service

open Dictionary (keys)
open StyleSense.Assist

/-- The document that a request is about. -/
def Request.subject? : Request → Option String
  | .openDocument name .. | .change name .. | .close name | .hover name _ | .complete name _
  | .colors name | .colorPresentation name .. => some name
  | .ping | .configure _ | .shutdown => none

/-- Whether an exchange delivered a document anew or closed it. -/
def Exchange.renews (uri : String) (e : Exchange) : Bool :=
  match e.request, e.answer with
  | .openDocument name .., _ | .close name, _ | .change name .., .ok _ => name = uri
  | _, _ => false

/-- Whether the settings allow a request for an analysis. -/
def Session.enables (s : Session) : Request → Bool
  | .hover .. => s.settings.hover
  | .complete .. => s.settings.suggestions
  | .colors .. => s.settings.colorDecorators
  | _ => false

/-- The document whose tree is needed for an answer. -/
def Session.wanted? (s : Session) (uri : String) (request : Request) : Option Document :=
  (s.cache.document? uri).filter fun document =>
    request.asksAbout uri && s.enables request &&
      s.settings.supportsLanguage document.languageId

/-- The tree of a document that an exchange uses: the one that is delivered or,
where a tree is needed, the one there is, or else one from the parser. -/
def Exchange.used? (uri : String) (e : Exchange) (there : Option Node) : Option Node :=
  if e.renews uri then (e.request.delivery? uri).bind fun delivery =>
    delivery.ast.bind Node.ofJson?
  else (e.before.wanted? uri e.request).bind fun document =>
    there.or (e.before.parse? e.programs document)

/-- Puts a tree that is used in front of the others. -/
def touch (uri : String) (trees : Dictionary Node) : Option Node → Dictionary Node
  | some tree => (uri, tree) :: Dictionary.erase uri trees
  | none => trees

/-- The trees after an exchange, if none makes room for others. -/
def Exchange.touched (e : Exchange) (trees : Dictionary Node) : Dictionary Node :=
  match e.request.subject? with
  | none => trees
  | some uri =>
      touch uri (if e.renews uri then Dictionary.erase uri trees else trees)
        (e.used? uri (Dictionary.get? uri trees))

/-- The trees that were delivered or parsed and not dropped since, the one used
last first, as if there were room for any number of them. -/
def held : List Exchange → Dictionary Node
  | [] => []
  | e :: past => e.touched (held past)

/-- Whether since the tree of a document was last used there was a moment when the
trees of twenty other documents had been used after it, and not dropped. -/
def crowded (uri : String) : List Exchange → Bool
  | [] => false
  | e :: past =>
      (e.used? uri (Dictionary.get? uri (held past))).isNone &&
        (crowded uri past || decide (20 ≤ (keys (held (e :: past))).idxOf uri))

variable {s : Session} {programs : Programs} {request : Request} {uri : String} {e : Exchange}
  {past : List Exchange} {trees all : Dictionary Node}

theorem asksAbout_of_wanted? {document : Document}
    (h : s.wanted? uri request = some document) : request.asksAbout uri = true := by
  have hasks := (Option.filter_eq_some_iff.1 h).2
  rw [Bool.and_eq_true, Bool.and_eq_true] at hasks
  exact hasks.1.1

theorem subject?_of_asksAbout (h : request.asksAbout uri = true) :
    request.subject? = some uri := by
  cases request <;> first | exact congrArg some (of_decide_eq_true h) | cases h

theorem wanted?_of_not_asksAbout (h : request.asksAbout uri = false) :
    s.wanted? uri request = none :=
  Option.eq_none_iff_forall_ne_some.2 fun _ hwanted =>
    Bool.false_ne_true (h.symm.trans (asksAbout_of_wanted? hwanted))

theorem renews_of_subject?_ne (h : e.request.subject? ≠ some uri) : e.renews uri = false := by
  obtain ⟨before, programs, request, answer⟩ := e
  have hname : ∀ name, some name ≠ some uri → decide (name = uri) = false :=
    fun name hne => decide_eq_false fun heq => hne (congrArg some heq)
  cases request <;> first | rfl | exact hname _ h | skip
  cases answer
  · rfl
  · exact hname _ h

/-- An exchange about other documents uses no tree of this one. -/
theorem used?_of_subject?_ne (h : e.request.subject? ≠ some uri) (there : Option Node) :
    e.used? uri there = none := by
  have hasks : e.request.asksAbout uri = false :=
    Bool.eq_false_iff.2 fun hasks => h (subject?_of_asksAbout hasks)
  rw [Exchange.used?, renews_of_subject?_ne h, if_neg Bool.false_ne_true,
    wanted?_of_not_asksAbout hasks]
  rfl

theorem nodup_keys_touch (h : (keys trees).Nodup) (uri : String) (tree? : Option Node) :
    (keys (touch uri trees tree?)).Nodup := by
  cases tree? with
  | none => exact h
  | some tree => exact Dictionary.nodup_keys_cons_erase h uri tree

theorem nodup_keys_touched (h : (keys trees).Nodup) (e : Exchange) :
    (keys (e.touched trees)).Nodup := by
  rw [Exchange.touched]
  cases e.request.subject? with
  | none => exact h
  | some uri =>
      refine nodup_keys_touch ?_ uri _
      split
      · exact Dictionary.nodup_keys_erase h uri
      · exact h

theorem nodup_keys_held (past : List Exchange) : (keys (held past)).Nodup := by
  induction past with
  | nil => exact List.nodup_nil
  | cons e past ih => exact nodup_keys_touched ih e

/-- In a list without repetition an entry comes no earlier than in a sublist. -/
theorem idxOf_le_of_sublist {short long : List String} (h : short.Sublist long)
    (hlong : long.Nodup) (hmem : uri ∈ short) : short.idxOf uri ≤ long.idxOf uri := by
  induction h with
  | slnil => exact Nat.le_refl _
  | @cons short long name h ih =>
      obtain ⟨hname, hlong⟩ := List.nodup_cons.1 hlong
      have hne : name ≠ uri := fun heq => hname (heq ▸ h.subset hmem)
      rw [List.idxOf_cons_ne _ hne]
      exact Nat.le_succ_of_le (ih hlong hmem)
  | @cons_cons short long name h ih =>
      by_cases hname : name = uri
      · rw [List.idxOf_cons_eq _ hname]
        exact Nat.zero_le _
      · rw [List.idxOf_cons_ne _ hname, List.idxOf_cons_ne _ hname]
        exact Nat.succ_le_succ
          (ih (List.nodup_cons.1 hlong).2 ((List.mem_cons.1 hmem).resolve_left (Ne.symm hname)))

theorem get?_touched_of_ne (h : e.request.subject? ≠ some uri) (trees : Dictionary Node) :
    Dictionary.get? uri (e.touched trees) = Dictionary.get? uri trees := by
  rw [Exchange.touched]
  cases hsubject : e.request.subject? with
  | none => rfl
  | some name =>
      have hne : uri ≠ name := fun heq => h (heq ▸ hsubject)
      have hdropped : Dictionary.get? uri (if e.renews name then Dictionary.erase name trees
          else trees) = Dictionary.get? uri trees := by
        split
        · exact Dictionary.get?_erase_of_ne hne trees
        · rfl
      dsimp only
      cases e.used? name (Dictionary.get? name trees) with
      | none => exact hdropped
      | some tree => exact (Dictionary.get?_cons_erase_of_ne hne _ _).trans hdropped

/-- What an exchange leaves of a document. -/
theorem get?_touched (htrees : (keys trees).Nodup) (e : Exchange) (uri : String) :
    Dictionary.get? uri (e.touched trees) =
      (e.used? uri (Dictionary.get? uri trees)).or
        (if e.renews uri then none else Dictionary.get? uri trees) := by
  by_cases h : e.request.subject? = some uri
  · simp only [Exchange.touched, h]
    cases e.used? uri (Dictionary.get? uri trees) with
    | some tree => exact Dictionary.get?_cons_self _ _ _
    | none =>
        rw [touch, Option.none_or]
        split
        · exact Dictionary.get?_erase_self htrees uri
        · rfl
  · rw [get?_touched_of_ne h, used?_of_subject?_ne h, renews_of_subject?_ne h]
    rfl

/-- An exchange that finds a tree to use finds one as well where there is a tree
already whenever there was one. -/
theorem used?_ne_none {there other : Option Node} (hthere : there ≠ none → other ≠ none)
    (hused : e.used? uri there ≠ none) : e.used? uri other ≠ none := by
  rw [Exchange.used?] at hused ⊢
  split
  · rwa [if_pos ‹_›] at hused
  · rw [if_neg ‹_›] at hused
    cases hwanted : e.before.wanted? uri e.request with
    | none => exact absurd (by rw [hwanted]; rfl) hused
    | some document =>
        rw [hwanted, Option.bind_some] at hused
        rw [Option.bind_some]
        cases other with
        | some tree => exact Option.some_ne_none tree
        | none =>
            have hnone : there = none := by_contra fun h => hthere h rfl
            rwa [hnone] at hused

/-- The trees that are kept stay in the order of those that are held. Where a held
tree is used that is no longer kept, and cannot be made again, it alone moves. -/
theorem keys_touched_sublist (h : (keys trees).Sublist (keys all)) (e : Exchange) :
    (keys (e.touched trees)).Sublist (keys (e.touched all)) := by
  rw [Exchange.touched, Exchange.touched]
  cases e.request.subject? with
  | none => exact h
  | some uri =>
      have hdropped : (keys (if e.renews uri then Dictionary.erase uri trees else trees)).Sublist
          (keys (if e.renews uri then Dictionary.erase uri all else all)) := by
        split
        · rw [Dictionary.keys_erase, Dictionary.keys_erase]
          exact h.erase uri
        · exact h
      have herased := hdropped.erase uri
      rw [← Dictionary.keys_erase, ← Dictionary.keys_erase] at herased
      dsimp only
      cases hused : e.used? uri (Dictionary.get? uri trees) with
      | some tree =>
          have hthere : Dictionary.get? uri trees ≠ none → Dictionary.get? uri all ≠ none := by
            rw [Dictionary.get?_ne_none_iff, Dictionary.get?_ne_none_iff]
            exact fun hmem => h.subset hmem
          obtain ⟨other, hother⟩ := Option.ne_none_iff_exists'.1
            (used?_ne_none hthere (by rw [hused]; exact Option.some_ne_none tree))
          rw [hother]
          exact herased.cons_cons uri
      | none =>
          cases hother : e.used? uri (Dictionary.get? uri all) with
          | none => exact hdropped
          | some tree =>
              have hmissing : uri ∉ keys trees := fun hmem =>
                used?_ne_none (fun _ => Dictionary.get?_ne_none_iff.2 hmem)
                  (by rw [hother]; exact Option.some_ne_none tree) hused
              have hsame : Dictionary.erase uri trees = trees :=
                Dictionary.erase_eq_self (Dictionary.get?_eq_none hmissing)
              rw [hsame, ite_self] at herased hdropped ⊢
              rw [hsame] at herased
              exact herased.cons uri

theorem treeFor_of_kept (programs : Programs) {document : Document} {tree : Node}
    (h : s.cache.kept? document.uri = some tree) :
    ∃ cache, s.treeFor programs document = (some tree, { s with cache }) ∧
      s.cache.tree? document.uri = some (tree, cache) := by
  have htree : ∃ cache, s.cache.tree? document.uri = some (tree, cache) := by
    rw [Cache.tree?_eq, h]
    exact ⟨_, rfl⟩
  obtain ⟨cache, hcache⟩ := htree
  exact ⟨cache, by rw [Session.treeFor, hcache], hcache⟩

theorem treeFor_of_not_kept {document : Document} (h : s.cache.kept? document.uri = none) :
    s.treeFor programs document =
      match s.parse? programs document with
      | some tree => (some tree, { s with cache := s.cache.storeTree document.uri tree })
      | none => (none, s) := by
  have htree : s.cache.tree? document.uri = none := by
    rw [Cache.tree?_eq, h]
    rfl
  rw [Session.treeFor, htree]
  rfl

/-- Looking for a tree moves the one that is found to the front. A kept one takes
no room from others. -/
theorem trees_treeFor (hs : s.cache.Valid) (programs : Programs) (document : Document) :
    (s.treeFor programs document).2.cache.trees =
      (touch document.uri s.cache.trees
        ((s.cache.kept? document.uri).or (s.parse? programs document))).take 20 := by
  have hroom : s.cache.trees.take 20 = s.cache.trees := List.take_of_length_le hs.room
  cases hkept : s.cache.kept? document.uri with
  | some tree =>
      obtain ⟨cache, htree, hused⟩ := treeFor_of_kept programs hkept
      rw [Cache.tree?_eq, hkept] at hused
      cases hused
      rw [htree]
      have hlength : (Dictionary.erase document.uri s.cache.trees).length <
          s.cache.trees.length := Dictionary.length_erase_lt hkept
      exact (List.take_of_length_le (Nat.le_trans hlength hs.room)).symm
  | none =>
      rw [treeFor_of_not_kept hkept]
      cases s.parse? programs document with
      | some tree => rfl
      | none => exact hroom.symm

/-- What an exchange does that delivers a document or closes it. -/
theorem touched_of_renews (hsubject : e.request.subject? = some uri)
    (hrenews : e.renews uri = true) (trees : Dictionary Node) :
    e.touched trees = touch uri (Dictionary.erase uri trees)
      ((e.request.delivery? uri).bind fun delivery => delivery.ast.bind Node.ofJson?) := by
  simp only [Exchange.touched, hsubject, Exchange.used?, hrenews, if_true]

/-- What any other exchange about a document does. -/
theorem touched_of_not_renews (hsubject : e.request.subject? = some uri)
    (hrenews : e.renews uri = false) (trees : Dictionary Node) :
    e.touched trees = touch uri trees ((e.before.wanted? uri e.request).bind fun document =>
      (Dictionary.get? uri trees).or (e.before.parse? e.programs document)) := by
  simp only [Exchange.touched, hsubject, Exchange.used?, hrenews, Bool.false_eq_true, if_false]

theorem touched_of_not_asksAbout (uri : String) (hasks : e.request.asksAbout uri = false)
    (hsubject : e.request.subject? = some uri) (hrenews : e.renews uri = false)
    (trees : Dictionary Node) : e.touched trees = trees := by
  rw [touched_of_not_renews hsubject hrenews, wanted?_of_not_asksAbout hasks]
  rfl

theorem trees_analyse {α : Type} (hs : s.cache.Valid) (programs : Programs) (request : Request)
    (hasks : request.asksAbout uri = true) (answer : Except Fault Reply)
    (analysis : Document → Node → Except Failure (Option α)) :
    (s.analyse programs (s.enables request) uri analysis).2.cache.trees =
      ((Exchange.mk s programs request answer).touched s.cache.trees).take 20 := by
  have hroom : s.cache.trees.take 20 = s.cache.trees := List.take_of_length_le hs.room
  have hrenews : (Exchange.mk s programs request answer).renews uri = false := by
    cases request <;> first | rfl | cases hasks
  rw [touched_of_not_renews (subject?_of_asksAbout hasks) hrenews]
  unfold Session.analyse
  cases hopen : s.cache.document? uri with
  | none =>
      rw [Session.wanted?, hopen]
      exact hroom.symm
  | some document =>
      obtain rfl : document.uri = uri := hs.named uri document hopen
      rw [Session.wanted?, hopen, Option.filter_some, hasks, Bool.true_and]
      dsimp only
      rw [← Bool.not_and]
      cases s.enables request && s.settings.supportsLanguage document.languageId with
      | false => exact hroom.symm
      | true =>
          have htrees := trees_treeFor hs programs document
          rcases htree : s.treeFor programs document with ⟨- | tree, next⟩ <;>
          · rw [htree] at htrees
            exact htrees

theorem trees_openDocument (hs : s.cache.Valid) (uri languageId : String) (version : Int)
    (text : String) (ast : Option Json) :
    (s.openDocument uri languageId version text ast).cache.trees =
      (touch uri (Dictionary.erase uri s.cache.trees) (ast.bind Node.ofJson?)).take 20 := by
  rw [Session.openDocument, Session.storeAst]
  cases ast.bind Node.ofJson? with
  | none =>
      exact (List.take_of_length_le
        (Nat.le_trans (Dictionary.length_erase_le uri s.cache.trees) hs.room)).symm
  | some tree => rfl

/-- A request for swatches is an analysis that may be followed by keeping them. -/
theorem reply_colors (s : Session) (programs : Programs) (uri : String) :
    let next := (s.analyse programs s.settings.colorDecorators uri fun document tree =>
      Assist.swatches? document tree s.tracker .never).2
    (s.reply programs (.colors uri)).2 = next ∨ ∃ swatches,
      (s.reply programs (.colors uri)).2 =
        { next with cache := next.cache.storeSwatches uri swatches } := by
  dsimp only
  rw [Session.reply, Session.documentColors]
  rcases s.analyse programs s.settings.colorDecorators uri fun document tree =>
    Assist.swatches? document tree s.tracker .never with ⟨fault | - | swatches, next⟩
  · exact .inl rfl
  · exact .inl rfl
  · exact .inr ⟨swatches, rfl⟩

/-- Answering a request does to the trees what the exchange says, and keeps the
first twenty. -/
theorem trees_reply (hs : s.cache.Valid) (programs : Programs) (request : Request) :
    (s.reply programs request).2.cache.trees =
      ((Exchange.mk s programs request (s.reply programs request).1).touched
        s.cache.trees).take 20 := by
  have hroom : s.cache.trees.take 20 = s.cache.trees := List.take_of_length_le hs.room
  cases request with
  | ping | shutdown => exact hroom.symm
  | configure settings =>
      rw [Session.reply, Session.configure]
      cases parserOf settings <;> exact hroom.symm
  | openDocument name languageId version text ast =>
      have hrenews : (Exchange.mk s programs (.openDocument name languageId version text ast)
          (.ok .done)).renews name = true := decide_eq_true rfl
      rw [Session.reply, touched_of_renews rfl hrenews, Request.delivery?, if_pos rfl]
      exact trees_openDocument hs name languageId version text ast
  | change name version text ast =>
      rw [Session.reply, Session.changeDocument]
      cases s.cache.document? name with
      | none =>
          rw [touched_of_not_asksAbout name rfl rfl rfl]
          exact hroom.symm
      | some previous =>
          have hrenews : (Exchange.mk s programs (.change name version text ast)
              (.ok .done)).renews name = true := decide_eq_true rfl
          rw [Session.changed, touched_of_renews rfl hrenews, Request.delivery?, if_pos rfl]
          exact trees_openDocument hs name previous.languageId version text ast
  | close name =>
      have hrenews : (Exchange.mk s programs (.close name) (.ok .done)).renews name = true :=
        decide_eq_true rfl
      rw [Session.reply, touched_of_renews rfl hrenews]
      exact (List.take_of_length_le
        (Nat.le_trans (Dictionary.length_erase_le name s.cache.trees) hs.room)).symm
  | hover name position =>
      exact trees_analyse hs programs (.hover name position) (decide_eq_true rfl) _ _
  | complete name position =>
      exact trees_analyse hs programs (.complete name position) (decide_eq_true rfl) _ _
  | colors name =>
      have hanalysed := trees_analyse hs programs (.colors name) (decide_eq_true rfl)
        (s.reply programs (.colors name)).1
        fun document tree => Assist.swatches? document tree s.tracker .never
      rcases reply_colors s programs name with hnext | ⟨swatches, hnext⟩ <;>
      · rw [hnext]
        exact hanalysed
  | colorPresentation name range color =>
      rw [touched_of_not_asksAbout name rfl rfl rfl]
      exact hroom.symm

/-- What is kept of the document that a request is about. If its tree is used, it
is the first one and not cut off. -/
theorem kept?_reply (hs : s.cache.Valid)
    (hsubject : ∀ name, request.subject? = some name → name = uri)
    (he : e = ⟨s, programs, request, (s.reply programs request).1⟩) :
    (s.reply programs request).2.cache.kept? uri =
      (e.used? uri (s.cache.kept? uri)).or
        (if e.renews uri then none else s.cache.kept? uri) := by
  subst he
  rw [Cache.kept?, Cache.kept?, ← get?_touched hs.trees, trees_reply hs, Exchange.touched]
  have hall : ∀ {trees : Dictionary Node}, trees.length ≤ 20 →
      Dictionary.get? uri (trees.take 20) = Dictionary.get? uri trees := fun hlength =>
    congrArg (Dictionary.get? uri) (List.take_of_length_le hlength)
  dsimp only
  cases hname : request.subject? with
  | none => exact hall hs.room
  | some name =>
      obtain rfl := hsubject name hname
      dsimp only
      cases Exchange.used? name _ (Dictionary.get? name s.cache.trees) with
      | some tree =>
          refine Dictionary.get?_take_of_idxOf_lt ?_
          rw [touch, keys, List.map_cons, List.idxOf_cons_self]
          exact Nat.zero_lt_succ 19
      | none =>
          rw [touch]
          split
          · exact hall
              (Nat.le_trans (Dictionary.length_erase_le name s.cache.trees) hs.room)
          · exact hall hs.room

/-- What a session keeps of a document, next to what is held of it. -/
structure Placed (uri : String) (past : List Exchange) (s : Session) : Prop where
  order : (keys s.cache.trees).Sublist (keys (held past))
  sound : ∀ tree, s.cache.kept? uri = some tree → Dictionary.get? uri (held past) = some tree
  complete : crowded uri past = false → s.cache.kept? uri = Dictionary.get? uri (held past)

theorem placed_empty {s : Session} (h : s.cache = .empty) : Placed uri [] s where
  order := by
    rw [h]
    exact List.Sublist.refl _
  sound tree htree := by
    rw [h] at htree
    exact htree
  complete _ := by
    rw [h]
    rfl

/-- A held tree that is needed was kept, or else it is made again. -/
theorem Placed.found (h : Placed uri past s) {document : Document} {tree : Node}
    (hretrieved : crowded uri past = false ∨ s.parse? programs document = some tree)
    (hheld : Dictionary.get? uri (held past) = some tree) :
    s.cache.kept? uri = some tree ∨ s.parse? programs document = some tree :=
  hretrieved.imp_left fun hroom => (h.complete hroom).trans hheld

/-- An exchange uses the same tree of a document, whether it went in between or
not. -/
theorem Placed.used?_eq (h : Placed uri past e.before)
    (hretrieved : ∀ document tree, e.before.wanted? uri e.request = some document →
      Dictionary.get? uri (held past) = some tree →
      crowded uri past = false ∨ e.before.parse? e.programs document = some tree) :
    e.used? uri (e.before.cache.kept? uri) =
      e.used? uri (Dictionary.get? uri (held past)) := by
  rw [Exchange.used?, Exchange.used?]
  split
  · rfl
  · cases hwanted : e.before.wanted? uri e.request with
    | none => rfl
    | some document =>
        rw [Option.bind_some, Option.bind_some]
        cases hheld : Dictionary.get? uri (held past) with
        | some tree =>
            cases hkept : e.before.cache.kept? uri with
            | some kept =>
                have hsame := (h.sound kept hkept).symm.trans hheld
                cases hsame
                rfl
            | none =>
                have hparsed : e.before.parse? e.programs document = some tree :=
                  (h.found (hretrieved document tree hwanted hheld) hheld).resolve_left
                    (by rw [hkept]; nofun)
                exact hparsed
        | none =>
            have hkept : e.before.cache.kept? uri = none :=
              Option.eq_none_iff_forall_ne_some.2 fun tree hkept => by
                cases hheld.symm.trans (h.sound tree hkept)
            rw [hkept]

/-- An exchange about other documents takes the tree of one only where twenty
others come in front of it. -/
theorem Placed.reply_of_ne (h : Placed uri past s) (hs : s.cache.Valid)
    (hsubject : request.subject? ≠ some uri)
    (he : e = ⟨s, programs, request, (s.reply programs request).1⟩) :
    Placed uri (e :: past) (s.reply programs request).2 := by
  have htrees : (s.reply programs request).2.cache.trees = (e.touched s.cache.trees).take 20 :=
    he ▸ trees_reply hs programs request
  have hsubject' : e.request.subject? ≠ some uri := he ▸ hsubject
  have horder : (keys (e.touched s.cache.trees)).Sublist (keys (held (e :: past))) :=
    keys_touched_sublist h.order e
  have hkept := get?_touched_of_ne hsubject' s.cache.trees
  have hheld : Dictionary.get? uri (held (e :: past)) =
      Dictionary.get? uri (held past) := get?_touched_of_ne hsubject' _
  refine ⟨?_, fun tree htree => ?_, fun hroom => ?_⟩
  · rw [htrees]
    exact ((List.take_sublist 20 _).map _).trans horder
  · rw [Cache.kept?, htrees] at htree
    exact hheld.trans (h.sound tree (hkept.symm.trans (Dictionary.get?_of_get?_take htree)))
  · rw [crowded, used?_of_subject?_ne hsubject', Option.isNone_none, Bool.true_and,
      Bool.or_eq_false_iff, decide_eq_false_iff_not, Nat.not_le] at hroom
    have hsame := h.complete hroom.1
    rw [Cache.kept?, htrees, hheld, ← hsame, Cache.kept?, ← hkept]
    by_cases hmem : uri ∈ keys (e.touched s.cache.trees)
    · refine Dictionary.get?_take_of_idxOf_lt (Nat.lt_of_le_of_lt ?_ hroom.2)
      exact idxOf_le_of_sublist horder (nodup_keys_held _) hmem
    · have hnone := Dictionary.get?_eq_none hmem
      rw [hnone]
      exact Option.eq_none_iff_forall_ne_some.2 fun tree htree => by
        cases hnone.symm.trans (Dictionary.get?_of_get?_take htree)

/-- An exchange about a document keeps of it what is held, where a tree that went
is made again. -/
theorem Placed.reply_self (h : Placed uri past s) (hs : s.cache.Valid)
    (hsubject : request.subject? = some uri)
    (he : e = ⟨s, programs, request, (s.reply programs request).1⟩)
    (hretrieved : ∀ document tree, s.wanted? uri request = some document →
      Dictionary.get? uri (held past) = some tree →
      crowded uri past = false ∨ s.parse? programs document = some tree) :
    Placed uri (e :: past) (s.reply programs request).2 := by
  have hkept := kept?_reply hs (fun name hname => Option.some.inj (hname.symm.trans hsubject)) he
  have hheld : Dictionary.get? uri (held (e :: past)) = _ :=
    get?_touched (nodup_keys_held past) e uri
  have hused : e.used? uri (s.cache.kept? uri) =
      e.used? uri (Dictionary.get? uri (held past)) := by
    subst he
    exact h.used?_eq hretrieved
  rw [hused] at hkept
  refine ⟨?_, fun tree htree => ?_, fun hroom => ?_⟩
  · subst he
    rw [trees_reply hs]
    exact ((List.take_sublist 20 _).map _).trans (keys_touched_sublist h.order _)
  · rw [hheld]
    rw [hkept] at htree
    cases hnow : e.used? uri (Dictionary.get? uri (held past)) with
    | some now =>
        rw [hnow] at htree
        exact htree
    | none =>
        rw [hnow, Option.none_or] at htree
        rw [Option.none_or]
        split at htree
        · cases htree
        · rw [if_neg ‹_›]
          exact h.sound tree htree
  · rw [hkept, hheld]
    cases hnow : e.used? uri (Dictionary.get? uri (held past)) with
    | some now => rfl
    | none =>
        rw [crowded, hnow, Option.isNone_none, Bool.true_and, Bool.or_eq_false_iff] at hroom
        rw [h.complete hroom.1]

/-- Whenever the tree of a document is needed that was delivered or parsed before,
there was room for it all along since it was last used, or else the parser makes
it again. -/
def Retrievable (uri : String) (past : List Exchange) : Prop :=
  ∀ e earlier, e :: earlier <:+ past → ∀ document tree,
    e.before.wanted? uri e.request = some document →
    Dictionary.get? uri (held earlier) = some tree →
    crowded uri earlier = false ∨ e.before.parse? e.programs document = some tree

theorem Retrievable.mono {more : List Exchange} (h : Retrievable uri more)
    (hsuffix : past <:+ more) : Retrievable uri past :=
  fun e earlier he => h e earlier (he.trans hsuffix)

/-- One more turn keeps a document's tree in its place. -/
theorem Placed.next {r : Run} (h : Placed uri r.past r.session) (hs : r.session.cache.Valid)
    {turn : Turn} (hretrievable : Retrievable uri (r.next turn).past) :
    Placed uri (r.next turn).past (r.next turn).session := by
  by_cases hsubject : turn.request.subject? = some uri
  · exact h.reply_self hs hsubject rfl (hretrievable _ r.past List.suffix_rfl)
  · exact h.reply_of_ne hs hsubject rfl

end StyleSense.Service
