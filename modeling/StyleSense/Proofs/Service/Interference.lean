/-
# Documents side by side

What a session answers about one document does not depend on requests about
others, but for one thing: only twenty trees are kept, and the tree of a document
makes room for those used after it. Answers about the document are the same as
long as fewer than twenty other trees are used before its own is next needed, or
the parser makes it again then (`Retrievable`).

Both runs are compared with the one that leaves out everything about other
documents. There the tree never goes: it is the one that is held, and the session
of the full run knows of the document what that one does, but for its tree
(`Shadows`).
-/

import StyleSense.Proofs.Service.Recency

namespace StyleSense.Service

open StyleSense.Assist

/-- Whether a request has a bearing on a document: it is about it, or it sets up
the session. -/
def Request.concerns (uri : String) : Request → Bool
  | .configure _ => true
  | .openDocument name .. | .change name .. | .close name | .hover name _ | .complete name _
  | .colors name | .colorPresentation name .. => name = uri
  | .ping | .shutdown => false

/-- The answers to the requests that have a bearing on a document, the latest
first. -/
def answersAbout (uri : String) (past : List Exchange) : List (Except Fault Reply) :=
  (past.filter fun e => e.request.concerns uri).map (·.answer)

/-- Of a document `s` knows what `full` does, but it may be without its tree. -/
structure Shadows (uri : String) (s full : Session) : Prop where
  valid : s.cache.Valid
  settings : s.settings = full.settings
  parser : s.parser = full.parser
  document : s.cache.document? uri = full.cache.document? uri
  swatches : s.cache.swatches? uri = full.cache.swatches? uri
  tree : ∀ t, s.cache.kept? uri = some t → full.cache.kept? uri = some t

variable {s full next : Session} {uri other : String} {programs : Programs}

theorem Shadows.refl (h : s.cache.Valid) : Shadows uri s s :=
  ⟨h, rfl, rfl, rfl, rfl, fun _ ht => ht⟩

theorem Shadows.trans {middle : Session} (h : Shadows uri s middle) (h' : Shadows uri middle full) :
    Shadows uri s full where
  valid := h.valid
  settings := h.settings.trans h'.settings
  parser := h.parser.trans h'.parser
  document := h.document.trans h'.document
  swatches := h.swatches.trans h'.swatches
  tree t ht := h'.tree t (h.tree t ht)

/-- A session after a delivery. -/
theorem openDocument_spec (hs : s.cache.Valid) (uri languageId : String) (version : Int)
    (text : String) (ast : Option Json) :
    let next := s.openDocument uri languageId version text ast
    next.cache.Valid ∧ next.settings = s.settings ∧ next.parser = s.parser ∧
      next.cache.document? uri = some (.new uri languageId version text) ∧
      next.cache.swatches? uri = none ∧ next.cache.kept? uri = ast.bind Node.ofJson? := by
  let document := Document.new uri languageId version text
  have hvalid := Cache.valid_openDocument hs document
  have hopen : (s.cache.openDocument document).document? uri = some document :=
    Cache.document?_openDocument_self s.cache document
  have hswatches : (s.cache.openDocument document).swatches? uri = none :=
    Cache.swatches?_openDocument_self hs document
  dsimp only
  rw [Session.openDocument, Session.storeAst]
  cases ast.bind Node.ofJson? with
  | none =>
      exact ⟨hvalid, rfl, rfl, hopen, hswatches, Cache.kept?_openDocument_self hs document⟩
  | some tree =>
      exact ⟨Cache.valid_storeTree hvalid uri tree, rfl, rfl, hopen, hswatches,
        Cache.kept?_storeTree_self _ uri tree⟩

/-- A delivery of another document leaves a document alone, but for its tree. -/
theorem Shadows.openDocument_of_ne (hs : s.cache.Valid) (h : uri ≠ other) (languageId : String)
    (version : Int) (text : String) (ast : Option Json) :
    Shadows uri (s.openDocument other languageId version text ast) s := by
  let document := Document.new other languageId version text
  have hvalid := Cache.valid_openDocument hs document
  have hopen : (s.cache.openDocument document).document? uri = s.cache.document? uri :=
    Cache.document?_openDocument_of_ne h s.cache
  have hswatches : (s.cache.openDocument document).swatches? uri = s.cache.swatches? uri :=
    Cache.swatches?_openDocument_of_ne h s.cache
  have hkept : (s.cache.openDocument document).kept? uri = s.cache.kept? uri :=
    Cache.kept?_openDocument_of_ne h s.cache
  rw [Session.openDocument, Session.storeAst]
  cases ast.bind Node.ofJson? with
  | none => exact ⟨hvalid, rfl, rfl, hopen, hswatches, fun t ht => hkept ▸ ht⟩
  | some tree =>
      exact ⟨Cache.valid_storeTree hvalid other tree, rfl, rfl, hopen, hswatches, fun t ht =>
        hkept ▸ Cache.kept?_of_kept?_storeTree h ht⟩

/-- Looking for a tree changes neither settings nor parser. -/
theorem treeFor_setup (s : Session) (programs : Programs) (document : Document) :
    (s.treeFor programs document).2.settings = s.settings ∧
      (s.treeFor programs document).2.parser = s.parser := by
  cases hkept : s.cache.kept? document.uri with
  | some tree =>
      obtain ⟨cache, htree, -⟩ := treeFor_of_kept programs hkept
      rw [htree]
      exact ⟨rfl, rfl⟩
  | none =>
      rw [treeFor_of_not_kept hkept]
      cases s.parse? programs document <;> exact ⟨rfl, rfl⟩

theorem analyse_setup {α : Type} (s : Session) (programs : Programs) (enabled : Bool)
    (uri : String) (analysis : Document → Node → Except Failure (Option α)) :
    (s.analyse programs enabled uri analysis).2.settings = s.settings ∧
      (s.analyse programs enabled uri analysis).2.parser = s.parser := by
  unfold Session.analyse
  cases s.cache.document? uri with
  | none => exact ⟨rfl, rfl⟩
  | some document =>
      dsimp only
      split
      · exact ⟨rfl, rfl⟩
      · have hsetup := treeFor_setup s programs document
        rcases htree : s.treeFor programs document with ⟨- | tree, next⟩ <;>
          · rw [htree] at hsetup
            exact hsetup

/-- An analysis of another document leaves a document alone, but for its tree. -/
theorem Shadows.analyse_of_ne {α : Type} (hs : s.cache.Valid) (h : uri ≠ other)
    (programs : Programs) (enabled : Bool)
    (analysis : Document → Node → Except Failure (Option α)) :
    Shadows uri (s.analyse programs enabled other analysis).2 s := by
  obtain ⟨hasked, -⟩ := analyse_spec hs programs enabled other analysis
  obtain ⟨hsettings, hparser⟩ := analyse_setup s programs enabled other analysis
  refine ⟨hasked.valid, hsettings, hparser, ?_, ?_, fun t ht => ?_⟩
  · rw [Cache.document?, hasked.documents]
    rfl
  · rw [Cache.swatches?, hasked.swatches]
    rfl
  · exact (hasked.trees uri t ht).resolve_right fun hsame => h hsame.1

/-- A request that has no bearing on a document leaves it alone, but for its
tree. -/
theorem Shadows.reply_of_not_concerns (hs : s.cache.Valid) {request : Request}
    (h : request.concerns uri = false) (programs : Programs) :
    Shadows uri (s.reply programs request).2 s := by
  cases request with
  | ping => exact .refl hs
  | shutdown => exact .refl hs
  | configure settings => cases h
  | openDocument name languageId version text ast =>
      exact .openDocument_of_ne hs (Ne.symm (of_decide_eq_false h)) languageId version text ast
  | change name version text ast =>
      rw [Session.reply, Session.changeDocument]
      cases s.cache.document? name with
      | none => exact .refl hs
      | some previous =>
          exact .openDocument_of_ne hs (Ne.symm (of_decide_eq_false h)) _ version text ast
  | close name =>
      have hne : uri ≠ name := Ne.symm (of_decide_eq_false h)
      exact ⟨Cache.valid_close hs name, rfl, rfl, Cache.document?_close_of_ne hne s.cache,
        Cache.swatches?_close_of_ne hne s.cache,
        fun t ht => (Cache.kept?_close_of_ne hne s.cache).symm.trans ht⟩
  | hover name position =>
      exact .analyse_of_ne hs (Ne.symm (of_decide_eq_false h)) programs _ _
  | complete name position =>
      exact .analyse_of_ne hs (Ne.symm (of_decide_eq_false h)) programs _ _
  | colors name =>
      have hne : uri ≠ name := Ne.symm (of_decide_eq_false h)
      have hanalysed : Shadows uri (s.analyse programs s.settings.colorDecorators name
          fun document tree => Assist.swatches? document tree s.tracker .never).2 s :=
        .analyse_of_ne hs hne programs _ _
      rcases reply_colors s programs name with hnext | ⟨swatches, hnext⟩ <;> rw [hnext]
      · exact hanalysed
      · exact ⟨Cache.valid_storeSwatches hanalysed.valid name swatches, hanalysed.settings,
          hanalysed.parser, hanalysed.document,
          (Cache.swatches?_storeSwatches_of_ne hne _ _).trans hanalysed.swatches,
          hanalysed.tree⟩
  | colorPresentation name range color => exact .refl hs

theorem Shadows.parse?_eq (h : Shadows uri s full) (programs : Programs) (document : Document) :
    s.parse? programs document = full.parse? programs document := by
  rw [Session.parse?, Session.parse?, h.settings, h.parser]

/-- A tree that is kept from now on in both sessions. -/
theorem Shadows.of_kept (h : Shadows uri s full) {c cache : Cache} {tree : Node} (hc : c.Valid)
    (hdocuments : c.documents = s.cache.documents) (hswatches : c.swatches = s.cache.swatches)
    (hdocuments' : cache.documents = full.cache.documents)
    (hswatches' : cache.swatches = full.cache.swatches) (hkept : c.kept? uri = some tree)
    (hkept' : cache.kept? uri = some tree) :
    Shadows uri { s with cache := c } { full with cache } where
  valid := hc
  settings := h.settings
  parser := h.parser
  document := by
    rw [Cache.document?, Cache.document?, hdocuments, hdocuments']
    exact h.document
  swatches := by
    rw [Cache.swatches?, Cache.swatches?, hswatches, hswatches']
    exact h.swatches
  tree t ht := hkept'.trans (hkept.symm.trans ht)

/-- An exchange uses the same tree in both sessions, if there was the same before. -/
theorem Shadows.used?_eq (h : Shadows uri s full) (programs : Programs) (request : Request)
    (answer : Except Fault Reply) (there : Option Node) :
    (Exchange.mk s programs request answer).used? uri there =
      (Exchange.mk full programs request answer).used? uri there := by
  have hwanted : s.wanted? uri request = full.wanted? uri request := by
    have henables : s.enables = full.enables := by
      unfold Session.enables
      rw [h.settings]
    rw [Session.wanted?, Session.wanted?, h.document, henables, h.settings]
  have hparsed : s.parse? programs = full.parse? programs :=
    funext fun document => h.parse?_eq programs document
  rw [Exchange.used?, Exchange.used?]
  dsimp only
  rw [hwanted, hparsed]
  rfl

/-- Both sessions find the same tree, where one that went can be made again. -/
theorem Shadows.treeFor (h : Shadows uri s full) (hfull : full.cache.Valid) (programs : Programs)
    {document : Document} (hopen : s.cache.document? uri = some document)
    (hfound : ∀ tree, full.cache.kept? uri = some tree →
      s.cache.kept? uri = some tree ∨ s.parse? programs document = some tree) :
    (s.treeFor programs document).1 = (full.treeFor programs document).1 ∧
      Shadows uri (s.treeFor programs document).2 (full.treeFor programs document).2 := by
  obtain rfl : document.uri = uri := h.valid.named uri document hopen
  cases hkept' : full.cache.kept? document.uri with
  | some tree =>
      obtain ⟨cache, htree', hused'⟩ := treeFor_of_kept programs hkept'
      obtain ⟨-, -, hdocuments', hswatches', htrees'⟩ := Cache.tree?_spec hfull hused'
      rw [htree']
      cases hkept : s.cache.kept? document.uri with
      | some same =>
          obtain rfl : tree = same := Option.some.inj (hkept'.symm.trans (h.tree same hkept))
          obtain ⟨c, htree, hused⟩ := treeFor_of_kept programs hkept
          obtain ⟨-, hvalid, hdocuments, hswatches, htrees⟩ := Cache.tree?_spec h.valid hused
          rw [htree]
          exact ⟨rfl, h.of_kept hvalid hdocuments hswatches hdocuments' hswatches'
            ((htrees _).trans hkept) ((htrees' _).trans hkept')⟩
      | none =>
          have hparsed : s.parse? programs document = some tree :=
            (hfound tree hkept').resolve_left (by rw [hkept]; nofun)
          rw [treeFor_of_not_kept hkept, hparsed]
          exact ⟨rfl, h.of_kept (Cache.valid_storeTree h.valid _ tree) rfl rfl hdocuments'
            hswatches' (Cache.kept?_storeTree_self _ _ tree) ((htrees' _).trans hkept')⟩
  | none =>
      have hkept : s.cache.kept? document.uri = none :=
        Option.eq_none_iff_forall_not_mem.2 fun tree ht => by
          cases hkept'.symm.trans (h.tree tree ht)
      rw [treeFor_of_not_kept hkept, treeFor_of_not_kept hkept', h.parse?_eq]
      cases full.parse? programs document with
      | some tree =>
          exact ⟨rfl, h.of_kept (Cache.valid_storeTree h.valid _ tree) rfl rfl rfl rfl
            (Cache.kept?_storeTree_self _ _ tree) (Cache.kept?_storeTree_self _ _ tree)⟩
      | none => exact ⟨rfl, h⟩

/-- Both sessions give the same answer. -/
theorem Shadows.analyse {α : Type} (h : Shadows uri s full) (hfull : full.cache.Valid)
    (enabled : Bool) (analysis : Document → Node → Except Failure (Option α))
    (hfound : ∀ document tree, s.cache.document? uri = some document →
      (enabled && s.settings.supportsLanguage document.languageId) = true →
      full.cache.kept? uri = some tree →
      s.cache.kept? uri = some tree ∨ s.parse? programs document = some tree) :
    (s.analyse programs enabled uri analysis).1 = (full.analyse programs enabled uri analysis).1 ∧
      Shadows uri (s.analyse programs enabled uri analysis).2
        (full.analyse programs enabled uri analysis).2 := by
  unfold Session.analyse
  rw [← h.document, ← h.settings]
  cases hopen : s.cache.document? uri with
  | none => exact ⟨rfl, h⟩
  | some document =>
      dsimp only
      split
      · exact ⟨rfl, h⟩
      · next hallowed =>
          have hallows : (enabled && s.settings.supportsLanguage document.languageId) = true := by
            simpa using hallowed
          obtain ⟨htree, hafter⟩ := h.treeFor hfull programs hopen fun tree hkept =>
            hfound document tree hopen hallows hkept
          rcases hs : s.treeFor programs document with ⟨found, next⟩
          rcases hs' : full.treeFor programs document with ⟨found', next'⟩
          rw [hs, hs'] at htree hafter
          cases htree
          cases found with
          | none => exact ⟨rfl, hafter⟩
          | some tree => exact ⟨rfl, hafter⟩

/-- A delivery taken up by both sessions. -/
theorem Shadows.openDocument (h : Shadows uri s full) (hfull : full.cache.Valid)
    (languageId : String) (version : Int) (text : String) (ast : Option Json) :
    Shadows uri (s.openDocument uri languageId version text ast)
      (full.openDocument uri languageId version text ast) := by
  obtain ⟨hvalid, hsettings, hparser, hdocument, hswatches, hkept⟩ :=
    openDocument_spec h.valid uri languageId version text ast
  obtain ⟨-, hsettings', hparser', hdocument', hswatches', hkept'⟩ :=
    openDocument_spec hfull uri languageId version text ast
  refine ⟨hvalid, ?_, ?_, hdocument.trans hdocument'.symm, hswatches.trans hswatches'.symm,
    fun t ht => hkept'.trans (hkept.symm.trans ht)⟩
  · rw [hsettings, hsettings', h.settings]
  · rw [hparser, hparser', h.parser]

/-- Both sessions answer a request about the document, or one that sets them up,
in the same way. -/
theorem Shadows.reply (h : Shadows uri s full) (hfull : full.cache.Valid) (programs : Programs)
    {request : Request}
    (hconcerns : request.concerns uri = true)
    (hfound : ∀ document tree, s.wanted? uri request = some document →
      full.cache.kept? uri = some tree →
      s.cache.kept? uri = some tree ∨ s.parse? programs document = some tree) :
    (s.reply programs request).1 = (full.reply programs request).1 ∧
      Shadows uri (s.reply programs request).2 (full.reply programs request).2 := by
  have hasked : ∀ enabled, request.asksAbout uri = true → s.enables request = enabled →
      ∀ document tree, s.cache.document? uri = some document →
        (enabled && s.settings.supportsLanguage document.languageId) = true →
        full.cache.kept? uri = some tree →
        s.cache.kept? uri = some tree ∨ s.parse? programs document = some tree := by
    intro enabled hasks henables document tree hopen hallows
    refine hfound document tree ?_
    rw [Session.wanted?, hopen, Option.filter_some, hasks, henables, Bool.true_and, if_pos hallows]
  have htracker : s.tracker = full.tracker := by
    rw [Session.tracker, Session.tracker, h.settings]
  cases request with
  | ping => cases hconcerns
  | shutdown => cases hconcerns
  | configure settings =>
      rw [Session.reply, Session.reply, Session.configure, Session.configure]
      cases parserOf settings with
      | error fault => exact ⟨rfl, h⟩
      | ok parser =>
          refine ⟨rfl, ⟨h.valid, rfl, ?_, h.document, h.swatches, h.tree⟩⟩
          change (parser.orElse fun _ => s.parser) = parser.orElse fun _ => full.parser
          rw [h.parser]
  | openDocument name languageId version text ast =>
      obtain rfl : name = uri := of_decide_eq_true hconcerns
      exact ⟨rfl, h.openDocument hfull languageId version text ast⟩
  | change name version text ast =>
      obtain rfl : name = uri := of_decide_eq_true hconcerns
      rw [Session.reply, Session.reply, Session.changeDocument, Session.changeDocument,
        ← h.document]
      cases s.cache.document? name with
      | none => exact ⟨rfl, h⟩
      | some previous => exact ⟨rfl, h.openDocument hfull _ version text ast⟩
  | close name =>
      obtain rfl : name = uri := of_decide_eq_true hconcerns
      refine ⟨rfl, ⟨Cache.valid_close h.valid name, h.settings, h.parser, ?_, ?_, fun t ht => ?_⟩⟩
      · exact (Cache.document?_close_self h.valid name).trans
          (Cache.document?_close_self hfull name).symm
      · exact (Cache.swatches?_close_self h.valid name).trans
          (Cache.swatches?_close_self hfull name).symm
      · cases (Cache.kept?_close_self h.valid name).symm.trans ht
  | hover name position =>
      obtain rfl : name = uri := of_decide_eq_true hconcerns
      obtain ⟨hanswer, hafter⟩ := h.analyse hfull s.settings.hover
        (fun document tree => hover? document tree s.tracker position s.settings.normalizer .never)
        (hasked _ (decide_eq_true rfl) rfl)
      rw [Session.reply, Session.reply, Session.hover, Session.hover, ← htracker, ← h.settings]
      exact ⟨congrArg (Except.map Reply.hover) hanswer, hafter⟩
  | complete name position =>
      obtain rfl : name = uri := of_decide_eq_true hconcerns
      obtain ⟨hanswer, hafter⟩ := h.analyse hfull s.settings.suggestions
        (fun document tree => completions? document tree s.tracker position .never)
        (hasked _ (decide_eq_true rfl) rfl)
      rw [Session.reply, Session.reply, Session.completions, Session.completions, ← htracker,
        ← h.settings]
      exact ⟨congrArg (Except.map Reply.completions) hanswer, hafter⟩
  | colors name =>
      obtain rfl : name = uri := of_decide_eq_true hconcerns
      obtain ⟨hanswer, hafter⟩ := h.analyse hfull s.settings.colorDecorators
        (fun document tree => Assist.swatches? document tree s.tracker .never)
        (hasked _ (decide_eq_true rfl) rfl)
      rw [Session.reply, Session.reply, Session.documentColors, Session.documentColors,
        ← htracker, ← h.settings]
      rcases hs : s.analyse programs s.settings.colorDecorators name
        (fun document tree => Assist.swatches? document tree s.tracker .never) with ⟨answer, next⟩
      rcases hs' : full.analyse programs s.settings.colorDecorators name
        (fun document tree => Assist.swatches? document tree s.tracker .never) with
        ⟨answer', next'⟩
      rw [hs, hs'] at hanswer hafter
      cases hanswer
      rcases answer with fault | - | swatches
      · exact ⟨rfl, hafter⟩
      · exact ⟨rfl, hafter⟩
      · refine ⟨rfl, ⟨Cache.valid_storeSwatches hafter.valid name swatches, hafter.settings,
          hafter.parser, hafter.document, ?_, hafter.tree⟩⟩
        exact (Cache.swatches?_storeSwatches_self next.cache name swatches).trans
          (Cache.swatches?_storeSwatches_self next'.cache name swatches).symm
  | colorPresentation name range color =>
      obtain rfl : name = uri := of_decide_eq_true hconcerns
      refine ⟨?_, h⟩
      rw [Session.reply, Session.reply, Session.colorPresentation, Session.colorPresentation,
        h.swatches]

theorem delivery?_of_not_concerns {request : Request} (h : request.concerns uri = false) :
    request.delivery? uri = none := by
  cases request <;> first | rfl | exact if_neg (of_decide_eq_false h)

theorem renews_of_not_concerns {e : Exchange} (h : e.request.concerns uri = false) :
    e.renews uri = false := by
  obtain ⟨before, programs, request, answer⟩ := e
  cases request <;> first | rfl | exact h | skip
  cases answer
  · rfl
  · exact h

theorem concerns_iff_subject? {request : Request} {name : String}
    (hsubject : request.subject? = some name) : request.concerns uri = true ↔ name = uri := by
  cases request <;> cases hsubject <;> exact decide_eq_true_iff

/-- Every answer leaves a valid cache, as that of a session beside itself does. -/
theorem valid_reply (hs : s.cache.Valid) (programs : Programs) (request : Request) :
    (s.reply programs request).2.cache.Valid := by
  cases hconcerns : request.concerns "" with
  | true =>
      exact ((Shadows.refl hs).reply hs programs hconcerns fun _ _ _ hkept => .inl hkept).2.valid
  | false => exact (Shadows.reply_of_not_concerns hs hconcerns programs).valid

section

variable {past : List Exchange} {e : Exchange}

/-- The tree that came with the latest delivery of an open document is held. -/
def Delivered (uri : String) (past : List Exchange) (s : Session) : Prop :=
  ∀ document delivery tree, s.cache.document? uri = some document →
    latest? uri past = some delivery → delivery.ast.bind Node.ofJson? = some tree →
    Dictionary.get? uri (held past) = some tree

/-- While a document is neither delivered nor closed, its tree stays the same. -/
theorem get?_held_cons {tree : Node} (hheld : Dictionary.get? uri (held past) = some tree)
    (hrenews : e.renews uri = false) : Dictionary.get? uri (held (e :: past)) = some tree := by
  rw [held, get?_touched (nodup_keys_held past), Exchange.used?, hheld, hrenews,
    if_neg Bool.false_ne_true, if_neg Bool.false_ne_true]
  cases e.before.wanted? uri e.request <;> rfl

theorem Delivered.of_quiet (h : Delivered uri past s) (hdelivery : e.request.delivery? uri = none)
    (hrenews : e.renews uri = false)
    (hdocument : next.cache.document? uri = s.cache.document? uri) :
    Delivered uri (e :: past) next := by
  intro document delivery tree hopen hlatest hdecoded
  rw [latest?_cons_of_none hdelivery] at hlatest
  exact get?_held_cons (h document delivery tree (hdocument.symm.trans hopen) hlatest hdecoded)
    hrenews

theorem delivered_of_renews {delivery : Delivery}
    (hdelivery : e.request.delivery? uri = some delivery) (hrenews : e.renews uri = true) :
    Delivered uri (e :: past) next := by
  intro document found tree _ hlatest hdecoded
  rw [latest?_cons_of_some hdelivery] at hlatest
  cases hlatest
  rw [held, get?_touched (nodup_keys_held past), Exchange.used?, hrenews, if_pos rfl,
    hdelivery, Option.bind_some, hdecoded]
  rfl

theorem delivered_of_closed (h : s.cache.document? uri = none) : Delivered uri past s := by
  intro document delivery tree hopen
  cases h.symm.trans hopen

theorem Delivered.reply (h : Delivered uri past s) (hs : s.cache.Valid) (programs : Programs)
    (request : Request) :
    Delivered uri (⟨s, programs, request, (s.reply programs request).1⟩ :: past)
      (s.reply programs request).2 := by
  cases hconcerns : request.concerns uri with
  | false =>
      exact h.of_quiet (delivery?_of_not_concerns hconcerns) (renews_of_not_concerns hconcerns)
        (Shadows.reply_of_not_concerns hs hconcerns programs).document
  | true =>
  have hasked : ∀ {next : Session}, Asked s next programs uri →
      next.cache.document? uri = s.cache.document? uri := fun hasked => by
    rw [Cache.document?, hasked.documents]
    rfl
  cases request with
  | ping => cases hconcerns
  | shutdown => cases hconcerns
  | configure settings =>
      refine h.of_quiet rfl rfl ?_
      rw [Session.reply, Session.configure]
      cases parserOf settings <;> rfl
  | openDocument name languageId version text ast =>
      obtain rfl : name = uri := of_decide_eq_true hconcerns
      exact delivered_of_renews (if_pos rfl) (decide_eq_true rfl)
  | change name version text ast =>
      obtain rfl : name = uri := of_decide_eq_true hconcerns
      rw [Session.reply, Session.changeDocument]
      cases hopen : s.cache.document? name with
      | none => exact delivered_of_closed hopen
      | some previous => exact delivered_of_renews (if_pos rfl) (decide_eq_true rfl)
  | close name =>
      obtain rfl : name = uri := of_decide_eq_true hconcerns
      exact delivered_of_closed (Cache.document?_close_self hs name)
  | hover name position =>
      obtain rfl : name = uri := of_decide_eq_true hconcerns
      exact h.of_quiet rfl rfl (hasked (analyse_spec hs programs _ name _).1)
  | complete name position =>
      obtain rfl : name = uri := of_decide_eq_true hconcerns
      exact h.of_quiet rfl rfl (hasked (analyse_spec hs programs _ name _).1)
  | colors name =>
      obtain rfl : name = uri := of_decide_eq_true hconcerns
      refine h.of_quiet rfl rfl ?_
      have hdocument := hasked (analyse_spec hs programs s.settings.colorDecorators name
        fun document tree => Assist.swatches? document tree s.tracker .never).1
      rcases reply_colors s programs name with hnext | ⟨swatches, hnext⟩ <;>
      · rw [hnext]
        exact hdocument
  | colorPresentation name range color => exact h.of_quiet rfl rfl rfl

/-- A session that needs a tree that is held finds it, or makes it again. -/
theorem Placed.treeFor (h : Placed uri past s) {document : Document} {tree : Node}
    (huri : document.uri = uri)
    (hretrieved : crowded uri past = false ∨ s.parse? programs document = some tree)
    (hheld : Dictionary.get? uri (Service.held past) = some tree) :
    (s.treeFor programs document).1 = some tree := by
  subst huri
  cases hkept : s.cache.kept? document.uri with
  | some kept =>
      cases (h.sound kept hkept).symm.trans hheld
      obtain ⟨cache, htree, -⟩ := treeFor_of_kept programs hkept
      rw [htree]
  | none =>
      have hparsed := (h.found hretrieved hheld).resolve_left (by rw [hkept]; nofun)
      rw [treeFor_of_not_kept hkept, hparsed]

end

/-- Whenever the tree of a document is needed, it is the one that came with the
latest delivery, if one came. -/
def Served (uri : String) (past : List Exchange) : Prop :=
  ∀ e earlier, e :: earlier <:+ past → ∀ document delivery tree,
    e.before.wanted? uri e.request = some document → latest? uri earlier = some delivery →
    delivery.ast.bind Node.ofJson? = some tree →
    (e.before.treeFor e.programs document).1 = some tree

/-- A run, and the run that left out all that has no bearing on a document. There
the tree is kept that is held. -/
structure Paired (uri : String) (r alone : Run) : Prop where
  shadows : Shadows uri r.session alone.session
  valid : alone.session.cache.Valid
  placed : Placed uri r.past r.session
  holds : alone.session.cache.kept? uri = Dictionary.get? uri (held r.past)
  answers : answersAbout uri r.past = answersAbout uri alone.past
  delivered : Delivered uri r.past r.session
  served : Served uri r.past

theorem Paired.start (uri : String) (settings : Settings) (parser : Option ParserCommand) :
    Paired uri (Run.start settings parser) (Run.start settings parser) where
  shadows := .refl Cache.valid_empty
  valid := Cache.valid_empty
  placed := placed_empty rfl
  holds := rfl
  answers := rfl
  delivered := delivered_of_closed rfl
  served _ _ h := absurd (List.suffix_nil.1 h) (List.cons_ne_nil _ _)

theorem answersAbout_cons (uri : String) (e : Exchange) (past : List Exchange) :
    answersAbout uri (e :: past) =
      if e.request.concerns uri then e.answer :: answersAbout uri past
      else answersAbout uri past := by
  rw [answersAbout, List.filter_cons]
  split <;> rfl

theorem Paired.served_next {r alone : Run} (h : Paired uri r alone) {turn : Turn}
    (hretrievable : Retrievable uri (r.next turn).past) : Served uri (r.next turn).past := by
  intro e earlier hsuffix document delivery tree hwanted hlatest hdecoded
  rcases List.suffix_cons_iff.1 hsuffix with heq | hearlier
  · cases heq
    have hopen : r.session.cache.document? uri = some document :=
      (Option.filter_eq_some_iff.1 hwanted).1
    have hheld := h.delivered document delivery tree hopen hlatest hdecoded
    exact h.placed.treeFor (h.shadows.valid.named uri document hopen)
      (hretrievable _ r.past List.suffix_rfl document tree hwanted hheld) hheld
  · exact h.served e earlier hearlier document delivery tree hwanted hlatest hdecoded

/-- A request that has no bearing on the document is not in the other run. -/
theorem Paired.next_of_not_concerns {r alone : Run} (h : Paired uri r alone) {turn : Turn}
    (hconcerns : turn.request.concerns uri = false)
    (hretrievable : Retrievable uri (r.next turn).past) : Paired uri (r.next turn) alone where
  shadows := (Shadows.reply_of_not_concerns h.shadows.valid hconcerns turn.programs).trans
    h.shadows
  valid := h.valid
  placed := h.placed.next h.shadows.valid hretrievable
  holds := by
    refine h.holds.trans (get?_touched_of_ne (fun hsubject => ?_) _).symm
    exact Bool.false_ne_true (hconcerns.symm.trans ((concerns_iff_subject? hsubject).2 rfl))
  answers := by
    refine Eq.trans ?_ h.answers
    exact (answersAbout_cons uri _ r.past).trans
      (if_neg (by rw [hconcerns]; exact Bool.false_ne_true))
  delivered := h.delivered.reply h.shadows.valid turn.programs turn.request
  served := h.served_next hretrievable

/-- A request that has a bearing on the document is answered in both runs. -/
theorem Paired.next_of_concerns {r alone : Run} (h : Paired uri r alone) {turn : Turn}
    (hconcerns : turn.request.concerns uri = true)
    (hretrievable : Retrievable uri (r.next turn).past) :
    Paired uri (r.next turn) (alone.next turn) := by
  obtain ⟨hanswer, hafter⟩ := h.shadows.reply h.valid turn.programs hconcerns
    fun document tree hwanted hkept =>
      have hheld := h.holds.symm.trans hkept
      h.placed.found (hretrievable _ r.past List.suffix_rfl document tree hwanted hheld) hheld
  refine ⟨hafter, valid_reply h.valid turn.programs turn.request,
    h.placed.next h.shadows.valid hretrievable, ?_, ?_,
    h.delivered.reply h.shadows.valid turn.programs turn.request, h.served_next hretrievable⟩
  · refine (kept?_reply h.valid ?_ rfl).trans
      (Eq.trans ?_ (get?_touched (nodup_keys_held r.past) _ uri).symm)
    · exact fun name hname => (concerns_iff_subject? hname).1 hconcerns
    · rw [h.holds, ← hanswer, ← h.shadows.used?_eq]
      rfl
  · refine (answersAbout_cons uri _ r.past).trans (Eq.trans ?_
      (answersAbout_cons uri _ alone.past).symm)
    rw [if_pos hconcerns, if_pos hconcerns]
    exact congrArg₂ List.cons hanswer h.answers

theorem past_suffix_after (r : Run) (turns : List Turn) : r.past <:+ (r.after turns).past := by
  induction turns generalizing r with
  | nil => exact List.suffix_rfl
  | cons turn turns ih => exact (List.suffix_cons _ r.past).trans (ih (r.next turn))

theorem Paired.after {r alone : Run} (h : Paired uri r alone) {turns : List Turn}
    (hretrievable : Retrievable uri (r.after turns).past) :
    Paired uri (r.after turns) (alone.after (turns.filter fun t => t.request.concerns uri)) := by
  induction turns generalizing r alone with
  | nil => exact h
  | cons turn turns ih =>
      have hnext := hretrievable.mono (past_suffix_after (r.next turn) turns)
      cases hconcerns : turn.request.concerns uri with
      | true =>
          rw [List.filter_cons, if_pos hconcerns]
          exact ih (h.next_of_concerns hconcerns hnext) hretrievable
      | false =>
          rw [List.filter_cons, if_neg (by rw [hconcerns]; exact Bool.false_ne_true)]
          exact ih (h.next_of_not_concerns hconcerns hnext) hretrievable

end StyleSense.Service
