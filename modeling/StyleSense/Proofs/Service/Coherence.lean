/-
# The cache is coherent

Whatever a client asks for, in whatever order: a tree that is kept belongs to
the text that is open now, and swatches that are kept are the last ones
answered for it. Both are read off the record of the run, so a request that
forgets to drop what an earlier text gave rise to would break the statement.

The invariant is stated for one name at a time. An exchange either leaves a
name alone, and then everything said of it carries over, or it closes the name
or delivers it anew, and then nothing is kept that could be stale.
-/

import StyleSense.Proofs.Service.Cache
import StyleSense.Proofs.Service.Run
import StyleSense.Proofs.Text.Lines

namespace StyleSense.Service

open StyleSense.Assist

theorem startsNoLater_trans (a b c : Swatch) (hab : Coloring.startsNoLater a b = true)
    (hbc : Coloring.startsNoLater b c = true) : Coloring.startsNoLater a c = true :=
  Text.Position.notAfter_trans hab hbc

theorem startsNoLater_total (a b : Swatch) :
    (Coloring.startsNoLater a b || Coloring.startsNoLater b a) = true := by
  simp only [Coloring.startsNoLater, Text.Position.notAfter, Bool.or_eq_true, Bool.and_eq_true,
    decide_eq_true_eq, UInt32.lt_iff_toNat_lt, UInt32.le_iff_toNat_le, ← UInt32.toNat_inj]
  omega

/-- A result that was changed came from a result. -/
theorem ok_of_map_eq_ok {ε α β : Type} {f : α → β} {x : Except ε α} {y : β}
    (h : x.map f = .ok y) : ∃ a, x = .ok a ∧ f a = y := by
  cases x with
  | error e => cases h
  | ok a => exact ⟨a, rfl, Except.ok.inj h⟩

theorem ok_of_mapError_eq_ok {ε ε' α : Type} {f : ε → ε'} {x : Except ε α} {y : α}
    (h : x.mapError f = .ok y) : x = .ok y := by
  cases x with
  | error e => cases h
  | ok a => exact congrArg _ (Except.ok.inj h)

/-- Swatches are answered by where they start. -/
theorem pairwise_swatches? {document : Document} {tree : Node} {tracker : Tracker}
    {token : Token} {swatches : List Swatch}
    (h : Assist.swatches? document tree tracker token = .ok (some swatches)) :
    swatches.Pairwise fun a b => Coloring.startsNoLater a b = true := by
  obtain ⟨found, -, hfound⟩ := ok_of_map_eq_ok h
  obtain ⟨list, -, rfl⟩ := Option.map_eq_some_iff.1 hfound
  exact List.pairwise_mergeSort startsNoLater_trans startsNoLater_total list

/-- What an answer about a document may do to the cache. Documents and swatches
stay. Trees may go, and the document's own may come from its parser. -/
structure Asked (s next : Session) (programs : Programs) (uri : String) : Prop where
  valid : next.cache.Valid
  documents : next.cache.documents = s.cache.documents
  swatches : next.cache.swatches = s.cache.swatches
  trees : ∀ other tree, next.cache.kept? other = some tree →
    s.cache.kept? other = some tree ∨
      other = uri ∧ ∃ document, s.cache.document? uri = some document ∧
        s.parse? programs document = some tree

variable {s next : Session} {programs : Programs} {uri : String}

theorem Asked.refl (hs : s.cache.Valid) : Asked s s programs uri :=
  ⟨hs, rfl, rfl, fun _ _ h => .inl h⟩

theorem asked_treeFor (hs : s.cache.Valid) (programs : Programs) {document : Document}
    (hopen : s.cache.document? uri = some document) :
    Asked s (s.treeFor programs document).2 programs uri := by
  obtain rfl : document.uri = uri := hs.named uri document hopen
  rcases hkept : s.cache.tree? document.uri with - | ⟨tree, cache⟩
  · rcases hparsed : s.parse? programs document with - | tree
    · have hnext : (s.treeFor programs document).2 = s := by
        unfold Session.parse? at hparsed
        simp only [Session.treeFor, hkept, hparsed]
      rw [hnext]
      exact Asked.refl hs
    · have hnext : (s.treeFor programs document).2 =
          { s with cache := s.cache.storeTree document.uri tree } := by
        unfold Session.parse? at hparsed
        simp only [Session.treeFor, hkept, hparsed]
      rw [hnext]
      refine ⟨Cache.valid_storeTree hs document.uri tree, rfl, rfl, ?_⟩
      intro other found hfound
      by_cases hother : other = document.uri
      · rw [hother, Cache.kept?_storeTree_self] at hfound
        cases hfound
        exact .inr ⟨hother, document, hopen, hparsed⟩
      · exact .inl (Cache.kept?_of_kept?_storeTree hother hfound)
  · obtain ⟨-, hvalid, hdocuments, hswatches, htrees⟩ := Cache.tree?_spec hs hkept
    have hnext : (s.treeFor programs document).2 = { s with cache } := by
      simp only [Session.treeFor, hkept]
    rw [hnext]
    exact ⟨hvalid, hdocuments, hswatches, fun other tree h => .inl (htrees other ▸ h)⟩

/-- An answer is about an open document, and its analysis gave it. -/
theorem analyse_spec {α : Type} (hs : s.cache.Valid) (programs : Programs) (enabled : Bool)
    (uri : String) (analysis : Document → Node → Except Failure (Option α)) :
    Asked s (s.analyse programs enabled uri analysis).2 programs uri ∧
      ∀ answer, (s.analyse programs enabled uri analysis).1 = .ok (some answer) →
        ∃ document tree, s.cache.document? uri = some document ∧
          analysis document tree = .ok (some answer) := by
  unfold Session.analyse
  rcases hopen : s.cache.document? uri with - | document
  · exact ⟨Asked.refl hs, nofun⟩
  · dsimp only
    split
    · exact ⟨Asked.refl hs, nofun⟩
    · have hasked := asked_treeFor hs programs hopen
      rcases htree : s.treeFor programs document with ⟨- | tree, next⟩
      · rw [htree] at hasked
        exact ⟨hasked, nofun⟩
      · rw [htree] at hasked
        exact ⟨hasked, fun answer h => ⟨document, tree, rfl, ok_of_mapError_eq_ok h⟩⟩

/-- Where the tree of a document may come from: it was delivered with the text
that is open, or the parser made it of that text since. -/
def Grounded (uri : String) (past : List Exchange) (document : Document) (tree : Node) : Prop :=
  (∃ delivery, latest? uri past = some delivery ∧ delivery.ast.bind Node.ofJson? = some tree) ∨
    ∃ e ∈ since uri past, e.parsed? uri document = some tree

/-- What is kept under one name, explained by the past. -/
structure Accounted (uri : String) (past : List Exchange) (c : Cache) : Prop where
  text : ∀ document, c.document? uri = some document →
    ∃ delivery, latest? uri past = some delivery ∧ document.text = delivery.text
  tree : ∀ tree, c.kept? uri = some tree →
    ∃ document, c.document? uri = some document ∧ Grounded uri past document tree
  swatches : ∀ swatches, c.swatches? uri = some swatches →
    (∃ document, c.document? uri = some document) ∧
      swatches.Pairwise (fun a b => Coloring.startsNoLater a b = true) ∧
      (since uri past).findSome? (Exchange.swatches? uri) = some swatches

/-- What is kept under every name, explained by the past. -/
structure Coherent (past : List Exchange) (c : Cache) : Prop where
  valid : c.Valid
  accounted : ∀ uri, Accounted uri past c

section

variable {past : List Exchange} {c cache : Cache} {e : Exchange}

/-- Where nothing is kept, nothing is to be explained. -/
theorem Accounted.of_closed (hdocument : c.document? uri = none) (htree : c.kept? uri = none)
    (hswatches : c.swatches? uri = none) : Accounted uri past c where
  text document h := absurd h (by rw [hdocument]; nofun)
  tree tree h := absurd h (by rw [htree]; nofun)
  swatches swatches h := absurd h (by rw [hswatches]; nofun)

/-- Under the name of no open document nothing else is kept either. -/
theorem Accounted.closed (h : Accounted uri past c) (hdocument : c.document? uri = none) :
    c.kept? uri = none ∧ c.swatches? uri = none := by
  constructor
  · apply Option.eq_none_iff_forall_ne_some.2
    intro tree htree
    obtain ⟨document, hopen, -⟩ := h.tree tree htree
    rw [hdocument] at hopen
    cases hopen
  · apply Option.eq_none_iff_forall_ne_some.2
    intro swatches hswatches
    obtain ⟨⟨document, hopen⟩, -⟩ := h.swatches swatches hswatches
    rw [hdocument] at hopen
    cases hopen

theorem Grounded.cons {document : Document} {tree : Node}
    (hdelivery : e.request.delivery? uri = none) (h : Grounded uri past document tree) :
    Grounded uri (e :: past) document tree := by
  rcases h with hdelivered | ⟨earlier, hmem, hparsed⟩
  · left
    rwa [latest?_cons_of_none hdelivery]
  · right
    rw [since_cons_of_none hdelivery]
    exact ⟨earlier, List.mem_cons_of_mem _ hmem, hparsed⟩

/-- An exchange that delivers nothing under a name keeps what is said of it, so
long as new trees come from the parser and new swatches are the answer. -/
theorem Accounted.carry (h : Accounted uri past c) (hdelivery : e.request.delivery? uri = none)
    (hdocument : cache.document? uri = c.document? uri)
    (htree : ∀ tree, cache.kept? uri = some tree → c.kept? uri = some tree ∨
      ∃ document, c.document? uri = some document ∧ e.parsed? uri document = some tree)
    (hswatches : ∀ swatches, cache.swatches? uri = some swatches →
      c.swatches? uri = some swatches ∧ e.swatches? uri = none ∨
        (∃ document, c.document? uri = some document) ∧
          swatches.Pairwise (fun a b => Coloring.startsNoLater a b = true) ∧
          e.swatches? uri = some swatches) :
    Accounted uri (e :: past) cache where
  text document hopen := by
    rw [hdocument] at hopen
    rw [latest?_cons_of_none hdelivery]
    exact h.text document hopen
  tree tree hkept := by
    rw [hdocument]
    rcases htree tree hkept with hold | ⟨document, hopen, hparsed⟩
    · obtain ⟨document, hopen, hgrounded⟩ := h.tree tree hold
      exact ⟨document, hopen, hgrounded.cons hdelivery⟩
    · refine ⟨document, hopen, .inr ⟨e, ?_, hparsed⟩⟩
      rw [since_cons_of_none hdelivery]
      exact List.mem_cons_self
  swatches swatches hkept := by
    rw [hdocument, since_cons_of_none hdelivery, List.findSome?_cons]
    rcases hswatches swatches hkept with ⟨hold, hanswer⟩ | ⟨hopen, hsorted, hanswer⟩
    · rw [hanswer]
      exact h.swatches swatches hold
    · rw [hanswer]
      exact ⟨hopen, hsorted, rfl⟩

/-- An exchange about other names. Trees may have gone to make room. -/
theorem Accounted.undisturbed (h : Accounted uri past c)
    (hdelivery : e.request.delivery? uri = none) (hanswer : e.swatches? uri = none)
    (hdocument : cache.document? uri = c.document? uri)
    (htree : ∀ tree, cache.kept? uri = some tree → c.kept? uri = some tree)
    (hswatches : cache.swatches? uri = c.swatches? uri) : Accounted uri (e :: past) cache :=
  h.carry hdelivery hdocument (fun tree hkept => .inl (htree tree hkept))
    fun _ hkept => .inl ⟨hswatches ▸ hkept, hanswer⟩

theorem Coherent.unchanged (h : Coherent past c)
    (hdelivery : ∀ uri, e.request.delivery? uri = none)
    (hanswer : ∀ uri, e.swatches? uri = none) : Coherent (e :: past) c where
  valid := h.valid
  accounted uri := (h.accounted uri).undisturbed (hdelivery uri) (hanswer uri) rfl
    (fun _ hkept => hkept) rfl

/-- A delivery for a document that is not open is refused. -/
theorem Coherent.refused (h : Coherent past c) (hclosed : c.document? uri = none)
    (hdelivery : ∀ other, other ≠ uri → e.request.delivery? other = none)
    (hanswer : ∀ other, e.swatches? other = none) : Coherent (e :: past) c where
  valid := h.valid
  accounted other := by
    by_cases hother : other = uri
    · subst hother
      obtain ⟨htree, hswatches⟩ := (h.accounted other).closed hclosed
      exact .of_closed hclosed htree hswatches
    · exact (h.accounted other).undisturbed (hdelivery other hother) (hanswer other) rfl
        (fun _ hkept => hkept) rfl

theorem Coherent.closed (h : Coherent past c)
    (hdelivery : ∀ other, e.request.delivery? other = none)
    (hanswer : ∀ other, e.swatches? other = none) : Coherent (e :: past) (c.close uri) where
  valid := Cache.valid_close h.valid uri
  accounted other := by
    by_cases hother : other = uri
    · subst hother
      exact .of_closed (Cache.document?_close_self h.valid other)
        (Cache.kept?_close_self h.valid other) (Cache.swatches?_close_self h.valid other)
    · exact (h.accounted other).undisturbed (hdelivery other) (hanswer other)
        (Cache.document?_close_of_ne hother c)
        (fun tree hkept => Cache.kept?_close_of_ne hother c ▸ hkept)
        (Cache.swatches?_close_of_ne hother c)

/-- A delivery that is taken up leaves nothing of an earlier text. -/
theorem Coherent.opened (h : Coherent past c) (document : Document) (ast : Option Json)
    (hself : e.request.delivery? document.uri = some ⟨document.text, ast⟩)
    (hdelivery : ∀ other, other ≠ document.uri → e.request.delivery? other = none)
    (hanswer : ∀ other, e.swatches? other = none) :
    Coherent (e :: past) (c.openDocument document) where
  valid := Cache.valid_openDocument h.valid document
  accounted other := by
    by_cases hother : other = document.uri
    · subst hother
      constructor
      · intro found hfound
        rw [Cache.document?_openDocument_self] at hfound
        cases hfound
        exact ⟨_, latest?_cons_of_some hself, rfl⟩
      · intro tree htree
        rw [Cache.kept?_openDocument_self h.valid] at htree
        cases htree
      · intro swatches hswatches
        rw [Cache.swatches?_openDocument_self h.valid] at hswatches
        cases hswatches
    · exact (h.accounted other).undisturbed (hdelivery other hother) (hanswer other)
        (Cache.document?_openDocument_of_ne hother c)
        (fun tree hkept => Cache.kept?_openDocument_of_ne hother c ▸ hkept)
        (Cache.swatches?_openDocument_of_ne hother c)

/-- The delivered tree may be kept. -/
theorem Coherent.storeTree (h : Coherent past c) {document : Document} {delivery : Delivery}
    {tree : Node} (hopen : c.document? uri = some document)
    (hlatest : latest? uri past = some delivery)
    (htree : delivery.ast.bind Node.ofJson? = some tree) :
    Coherent past (c.storeTree uri tree) where
  valid := Cache.valid_storeTree h.valid uri tree
  accounted other := by
    refine ⟨(h.accounted other).text, ?_, (h.accounted other).swatches⟩
    intro found hfound
    by_cases hother : other = uri
    · subst hother
      rw [Cache.kept?_storeTree_self] at hfound
      cases hfound
      exact ⟨document, hopen, .inl ⟨delivery, hlatest, htree⟩⟩
    · exact (h.accounted other).tree found (Cache.kept?_of_kept?_storeTree hother hfound)

/-- The trees after an answer, as the exchange explains them. -/
theorem Asked.kept (hasked : Asked s next programs uri) {request : Request}
    {answer : Except Fault Reply} (hasks : request.asksAbout uri = true) {other : String}
    {tree : Node} (hkept : next.cache.kept? other = some tree) :
    s.cache.kept? other = some tree ∨ ∃ document, s.cache.document? other = some document ∧
      (Exchange.mk s programs request answer).parsed? other document = some tree := by
  rcases hasked.trees other tree hkept with hold | ⟨rfl, document, hopen, hparsed⟩
  · exact .inl hold
  · refine .inr ⟨document, hopen, ?_⟩
    rw [Exchange.parsed?, if_pos hasks]
    exact hparsed

/-- An answer about a document that is no list of swatches. -/
theorem Coherent.asked (h : Coherent past s.cache) (hasked : Asked s next programs uri)
    {request : Request} {answer : Except Fault Reply} (hasks : request.asksAbout uri = true)
    (hdelivery : ∀ other, request.delivery? other = none)
    (hanswer : ∀ other, (Exchange.mk s programs request answer).swatches? other = none) :
    Coherent (⟨s, programs, request, answer⟩ :: past) next.cache where
  valid := hasked.valid
  accounted other := by
    refine (h.accounted other).carry (hdelivery other) ?_ (fun _ => hasked.kept hasks) ?_
    · rw [Cache.document?, hasked.documents]
      rfl
    · intro swatches hkept
      rw [Cache.swatches?, hasked.swatches] at hkept
      exact .inl ⟨hkept, hanswer other⟩

/-- A list of swatches that is answered takes the place of an earlier one. -/
theorem Coherent.answered (h : Coherent past s.cache) (hasked : Asked s next programs uri)
    {document : Document} (hopen : s.cache.document? uri = some document)
    {swatches : List Swatch}
    (hsorted : swatches.Pairwise fun a b => Coloring.startsNoLater a b = true) :
    Coherent (⟨s, programs, .colors uri, .ok (.colors (some swatches))⟩ :: past)
      (next.cache.storeSwatches uri swatches) where
  valid := Cache.valid_storeSwatches hasked.valid uri swatches
  accounted other := by
    have hasks : (Request.colors uri).asksAbout uri = true := decide_eq_true rfl
    refine (h.accounted other).carry rfl ?_ (fun _ => hasked.kept hasks) ?_
    · show next.cache.document? other = _
      rw [Cache.document?, hasked.documents]
      rfl
    · intro list hkept
      by_cases hother : other = uri
      · rw [hother, Cache.swatches?_storeSwatches_self,
          List.mergeSort_of_pairwise hsorted] at hkept
        cases hkept
        exact .inr ⟨⟨document, hother ▸ hopen⟩, hsorted, if_pos hother.symm⟩
      · rw [Cache.swatches?_storeSwatches_of_ne hother, Cache.swatches?, hasked.swatches] at hkept
        exact .inl ⟨hkept, if_neg (Ne.symm hother)⟩

/-- A delivery that is taken up, with its tree or without. -/
theorem Coherent.delivered (h : Coherent past s.cache) (languageId : String) (version : Int)
    {text : String} {ast : Option Json} (hself : e.request.delivery? uri = some ⟨text, ast⟩)
    (hdelivery : ∀ other, other ≠ uri → e.request.delivery? other = none)
    (hanswer : ∀ other, e.swatches? other = none) :
    Coherent (e :: past) (s.openDocument uri languageId version text ast).cache := by
  let document := Document.new uri languageId version text
  have hopened : Coherent (e :: past) (s.cache.openDocument document) :=
    h.opened document ast hself hdelivery hanswer
  rw [Session.openDocument, Session.storeAst]
  split
  case h_1 tree htree =>
    exact hopened.storeTree (Cache.document?_openDocument_self s.cache document)
      (latest?_cons_of_some hself) htree
  case h_2 => exact hopened

/-- One answer keeps the cache coherent. -/
theorem Coherent.reply (h : Coherent past s.cache) (programs : Programs) (request : Request) :
    Coherent (⟨s, programs, request, (s.reply programs request).1⟩ :: past)
      (s.reply programs request).2.cache := by
  cases request with
  | ping => exact h.unchanged (fun _ => rfl) (fun _ => rfl)
  | configure settings =>
      have hcache : (s.reply programs (.configure settings)).2.cache = s.cache := by
        rw [Session.reply, Session.configure]
        cases parserOf settings <;> rfl
      rw [hcache]
      exact h.unchanged (fun _ => rfl) (fun _ => rfl)
  | openDocument uri languageId version text ast =>
      exact h.delivered languageId version (if_pos rfl) (fun _ hother => if_neg (Ne.symm hother))
        (fun _ => rfl)
  | change uri version text ast =>
      have hother : ∀ other, other ≠ uri →
          (Request.change uri version text ast).delivery? other = none :=
        fun _ hother => if_neg (Ne.symm hother)
      rcases hopen : s.cache.document? uri with - | previous
      · have hrefused : s.changeDocument uri version text ast = .error (.notOpen uri) := by
          rw [Session.changeDocument, hopen]
        rw [Session.reply, hrefused]
        exact h.refused hopen hother (fun _ => rfl)
      · have htaken : s.changeDocument uri version text ast =
            .ok (s.openDocument uri previous.languageId version text ast) := by
          rw [Session.changeDocument, hopen]
        rw [Session.reply, htaken]
        exact h.delivered previous.languageId version (if_pos rfl) hother (fun _ => rfl)
  | close uri => exact h.closed (fun _ => rfl) (fun _ => rfl)
  | hover uri position =>
      obtain ⟨hasked, -⟩ := analyse_spec h.valid programs s.settings.hover uri
        fun document tree =>
          hover? document tree s.tracker position s.settings.normalizer .never
      exact h.asked hasked (decide_eq_true rfl) (fun _ => rfl) (fun _ => rfl)
  | complete uri position =>
      obtain ⟨hasked, -⟩ := analyse_spec h.valid programs s.settings.suggestions uri
        fun document tree => completions? document tree s.tracker position .never
      exact h.asked hasked (decide_eq_true rfl) (fun _ => rfl) (fun _ => rfl)
  | colors uri =>
      obtain ⟨hasked, hanalysed⟩ := analyse_spec h.valid programs s.settings.colorDecorators uri
        fun document tree => Assist.swatches? document tree s.tracker .never
      rw [Session.reply, Session.documentColors]
      rcases hanswer : s.analyse programs s.settings.colorDecorators uri
        (fun document tree => Assist.swatches? document tree s.tracker .never) with
        ⟨fault | - | swatches, next⟩
      · rw [hanswer] at hasked
        exact h.asked hasked (decide_eq_true rfl) (fun _ => rfl) (fun _ => rfl)
      · rw [hanswer] at hasked
        exact h.asked hasked (decide_eq_true rfl) (fun _ => rfl) (fun other => ite_self _)
      · rw [hanswer] at hasked hanalysed
        obtain ⟨document, tree, hopen, hswatches⟩ := hanalysed swatches rfl
        exact h.answered hasked hopen (pairwise_swatches? hswatches)
  | colorPresentation uri range color => exact h.unchanged (fun _ => rfl) (fun _ => rfl)
  | shutdown => exact h.unchanged (fun _ => rfl) (fun _ => rfl)

end

theorem coherent_empty : Coherent [] .empty where
  valid := Cache.valid_empty
  accounted _ := .of_closed rfl rfl rfl

/-- The cache of a fresh session is coherent after any requests. -/
theorem Coherent.after (settings : Settings) (parser : Option ParserCommand)
    (turns : List Turn) :
    Coherent ((Run.start settings parser).after turns).past
      ((Run.start settings parser).after turns).session.cache :=
  Run.after_induction (P := fun r => Coherent r.past r.session.cache) coherent_empty
    (fun _ turn h => h.reply turn.programs turn.request) turns

/-- After any requests to a fresh session: a tree that is kept is that of an
open document, and was delivered with its latest text or made of that text by
the parser since; swatches that are kept are in order, and are the last that
were answered for that text; and at most 20 trees are kept. -/
theorem coherent_after (settings : Settings) (parser : Option ParserCommand)
    (turns : List Turn) (uri : String) :
    let run := (Run.start settings parser).after turns
    (∀ tree, run.session.cache.kept? uri = some tree →
      ∃ document delivery, run.session.cache.document? uri = some document ∧
        latest? uri run.past = some delivery ∧ document.text = delivery.text ∧
        (delivery.ast.bind Node.ofJson? = some tree ∨
          ∃ e ∈ since uri run.past, e.parsed? uri document = some tree)) ∧
      (∀ swatches, run.session.cache.swatches? uri = some swatches →
        (∃ document, run.session.cache.document? uri = some document) ∧
          swatches.Pairwise (fun a b => Coloring.startsNoLater a b = true) ∧
          (since uri run.past).findSome? (Exchange.swatches? uri) = some swatches) ∧
      run.session.cache.trees.length ≤ 20 := by
  intro run
  have hrun : Coherent run.past run.session.cache := Coherent.after settings parser turns
  refine ⟨?_, (hrun.accounted uri).swatches, hrun.valid.room⟩
  intro tree hkept
  obtain ⟨document, hopen, hgrounded⟩ := (hrun.accounted uri).tree tree hkept
  obtain ⟨delivery, hlatest, htext⟩ := (hrun.accounted uri).text document hopen
  refine ⟨document, delivery, hopen, hlatest, htext, ?_⟩
  rcases hgrounded with ⟨same, hsame, hdelivered⟩ | hparsed
  · rw [hlatest] at hsame
    cases hsame
    exact .inl hdelivered
  · exact .inr hparsed

end StyleSense.Service
