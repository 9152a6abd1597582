/-
# What a failed request leaves

A line that cannot be answered leaves the session as it was, whatever the reason:
it is no request, its parameters are of the wrong form, it names a document that
is not open or a parser without a program, or the tree of its document has no
balanced scopes. Only the trees may differ, for the tree is looked for before an
analysis can fail. Then the one that was kept has been used once more, or one
that the parser has made of the open text is kept, and the tree that was not
used for longest has made room for it.

The same holds of requests that are answered and do not mean to change anything.
-/

import StyleSense.Proofs.Service.Interference

namespace StyleSense.Service

open StyleSense.Assist

/-- Whether a request, once it is answered, may have changed more than the
trees. -/
def Request.commits : Request → Bool
  | .configure _ | .openDocument .. | .change .. | .close _ | .colors _ => true
  | .ping | .hover .. | .complete .. | .colorPresentation .. | .shutdown => false

/-- The trees after that of a document was found. -/
inductive Sought (s : Session) (programs : Programs) (uri : String) : Dictionary Node → Prop
  /-- It was kept, and is now the one used last. -/
  | used {tree : Node} (hkept : s.cache.kept? uri = some tree) :
      Sought s programs uri ((uri, tree) :: Dictionary.erase uri s.cache.trees)
  /-- It was not kept, and the parser has made it of the open text. -/
  | parsed {document : Document} {tree : Node} (hopen : s.cache.document? uri = some document)
      (hmissing : s.cache.kept? uri = none) (hparsed : s.parse? programs document = some tree) :
      Sought s programs uri (((uri, tree) :: s.cache.trees).take treeCapacity)

/-- A session that differs from another one at most in its trees, and there only
if the tree of a document was found that was asked about. -/
structure Spared (s next : Session) (programs : Programs) (asked : String → Prop) : Prop where
  settings : next.settings = s.settings
  parser : next.parser = s.parser
  documents : next.cache.documents = s.cache.documents
  swatches : next.cache.swatches = s.cache.swatches
  trees : next.cache.trees = s.cache.trees ∨
    ∃ uri, asked uri ∧ Sought s programs uri next.cache.trees

variable {s : Session} {programs : Programs} {asked : String → Prop} {uri : String}

theorem Spared.refl (s : Session) (programs : Programs) (asked : String → Prop) :
    Spared s s programs asked :=
  ⟨rfl, rfl, rfl, rfl, .inl rfl⟩

theorem sought_treeFor (hs : s.cache.Valid) (programs : Programs) {document : Document}
    (hopen : s.cache.document? uri = some document) :
    (s.treeFor programs document).2.cache.trees = s.cache.trees ∨
      Sought s programs uri (s.treeFor programs document).2.cache.trees := by
  obtain rfl : document.uri = uri := hs.named uri document hopen
  cases hkept : s.cache.kept? document.uri with
  | some tree =>
      obtain ⟨cache, htree, hused⟩ := treeFor_of_kept programs hkept
      rw [Cache.tree?_eq, hkept] at hused
      cases hused
      rw [htree]
      exact .inr (.used hkept)
  | none =>
      rw [treeFor_of_not_kept hkept]
      cases hparsed : s.parse? programs document with
      | none => exact .inl rfl
      | some tree =>
          refine .inr ?_
          have htrees := Sought.parsed hopen hkept hparsed
          rwa [← Dictionary.erase_eq_self hkept] at htrees

/-- An analysis spares all but the tree of its document, whether it fails or
not. -/
theorem spared_analyse {α : Type} (hs : s.cache.Valid) (programs : Programs) (enabled : Bool)
    (hasked : asked uri) (analysis : Document → Node → Except Failure (Option α)) :
    Spared s (s.analyse programs enabled uri analysis).2 programs asked := by
  obtain ⟨hsettings, hparser⟩ := analyse_setup s programs enabled uri analysis
  obtain ⟨hkeeps, -⟩ := analyse_spec hs programs enabled uri analysis
  refine ⟨hsettings, hparser, hkeeps.documents, hkeeps.swatches, ?_⟩
  unfold Session.analyse
  cases hopen : s.cache.document? uri with
  | none => exact .inl rfl
  | some document =>
      dsimp only
      split
      · exact .inl rfl
      · have hsought := sought_treeFor hs programs hopen
        rcases htree : s.treeFor programs document with ⟨- | tree, next⟩ <;>
        · rw [htree] at hsought
          exact hsought.imp_right fun h => ⟨uri, hasked, h⟩

/-- A request that fails, or does not mean to change anything, spares all but the
tree of its document. -/
theorem spared_reply (hs : s.cache.Valid) (programs : Programs) {request : Request}
    (h : request.commits = false ∨ ∃ fault, (s.reply programs request).1 = .error fault) :
    Spared s (s.reply programs request).2 programs fun uri => request.asksAbout uri = true := by
  have hfails : request.commits = true → ∃ fault, (s.reply programs request).1 = .error fault :=
    fun hcommits => h.resolve_left fun hnot => Bool.false_ne_true (hnot.symm.trans hcommits)
  cases request with
  | ping | shutdown | colorPresentation => exact .refl s programs _
  | configure settings =>
      obtain ⟨fault, hfault⟩ := hfails rfl
      rw [Session.reply, Session.configure] at hfault ⊢
      cases hparser : parserOf settings with
      | error reason => exact .refl s programs _
      | ok parser =>
          rw [hparser] at hfault
          cases hfault
  | openDocument name languageId version text ast =>
      obtain ⟨fault, hfault⟩ := hfails rfl
      cases hfault
  | change name version text ast =>
      obtain ⟨fault, hfault⟩ := hfails rfl
      rw [Session.reply, Session.changeDocument] at hfault ⊢
      cases hopen : s.cache.document? name with
      | none => exact .refl s programs _
      | some previous =>
          rw [hopen] at hfault
          cases hfault
  | close name =>
      obtain ⟨fault, hfault⟩ := hfails rfl
      cases hfault
  | hover name position => exact spared_analyse hs programs _ (decide_eq_true rfl) _
  | complete name position => exact spared_analyse hs programs _ (decide_eq_true rfl) _
  | colors name =>
      obtain ⟨fault, hfault⟩ := hfails rfl
      have hspared : Spared s (s.analyse programs s.settings.colorDecorators name
          fun document tree => Assist.swatches? document tree s.tracker .never).2 programs
          fun uri => (Request.colors name).asksAbout uri = true :=
        spared_analyse hs programs _ (decide_eq_true rfl) _
      rw [Session.reply, Session.documentColors] at hfault ⊢
      rcases hanswer : s.analyse programs s.settings.colorDecorators name
        (fun document tree => Assist.swatches? document tree s.tracker .never) with
        ⟨reason | - | swatches, next⟩
      all_goals rw [hanswer] at hfault hspared
      · exact hspared
      · cases hfault
      · cases hfault

/-- Whatever a fresh session has been asked before: a line that is not answered,
and one with a request that does not mean to change anything, leaves settings,
parser, documents and swatches as they were. The trees are left so as well, but
that of the document which the line asks about may have been found on the way. -/
theorem spared_replyTo (settings : Settings) (parser : Option ParserCommand)
    (turns : List Turn) (programs : Programs) (line : String) :
    let s := ((Run.start settings parser).after turns).session
    ((∃ error, (s.replyTo programs line).1 = .error error) ∨
        ∃ request, Request.ofText line = .ok request ∧ request.commits = false) →
      Spared s (s.replyTo programs line).2 programs fun uri =>
        ∃ request, Request.ofText line = .ok request ∧ request.asksAbout uri = true := by
  intro s h
  have hvalid : s.cache.Valid := (Coherent.after settings parser turns).valid
  cases hline : Request.ofText line with
  | error error =>
      rw [Session.replyTo, hline]
      exact .refl s programs _
  | ok request =>
      have hnext : s.replyTo programs line =
          ((s.reply programs request).1.mapError .fault, (s.reply programs request).2) := by
        rw [Session.replyTo, hline]
      rw [hnext, hline] at h
      rw [hnext]
      have hkeeps : request.commits = false ∨
          ∃ fault, (s.reply programs request).1 = .error fault := by
        rcases h with ⟨error, herror⟩ | ⟨same, hsame, hcommits⟩
        · right
          cases hanswer : (s.reply programs request).1 with
          | error fault => exact ⟨fault, rfl⟩
          | ok reply =>
              rw [hanswer] at herror
              cases herror
        · cases hsame
          exact .inl hcommits
      have hspares := spared_reply hvalid programs hkeeps
      exact ⟨hspares.settings, hspares.parser, hspares.documents, hspares.swatches,
        hspares.trees.imp_right fun ⟨uri, hasks, hsought⟩ => ⟨uri, ⟨request, rfl, hasks⟩, hsought⟩⟩

/-- A document is parsed for a preview, and its tree has a constant outside of
every scope. The request fails, and only the tree is there to tell of it. -/
theorem spared_replyTo_unscoped :
    let identifier := "\x7b\"type\":\"Identifier\",\"value\":\"c\"\x7d"
    let declarator := "\x7b\"type\":\"VariableDeclarator\",\"id\":" ++ identifier ++
      ",\"init\":\x7b\"type\":\"NullLiteral\"\x7d\x7d"
    let programs : Programs := fun _ _ => some ("\x7b\"type\":\"VariableDeclaration\"," ++
      "\"kind\":\"const\",\"declarations\":[" ++ declarator ++ "]\x7d")
    let line := "\x7b\"command\":\"HOVER\",\"params\":\x7b\"uri\":\"u\"," ++
      "\"position\":\x7b\"line\":0,\"character\":0\x7d\x7d\x7d"
    let s := ((Run.start .default (some ⟨⟨"parse", []⟩⟩)).after
      [⟨programs, .openDocument "u" "javascript" 0 "" none⟩]).session
    (∃ error, (s.replyTo programs line).1 = .error error) ∧
      Spared s (s.replyTo programs line).2 programs (fun uri =>
        ∃ request, Request.ofText line = .ok request ∧ request.asksAbout uri = true) ∧
      s.cache.kept? "u" = none ∧ ((s.replyTo programs line).2.cache.kept? "u").isSome = true := by
  intro identifier declarator programs line s
  have hrun : (s.replyTo programs line).1.isOk = false ∧
      ((s.replyTo programs line).2.cache.kept? "u").isSome = true := by decide +kernel
  obtain ⟨hfails, hkept⟩ := hrun
  have herror : ∃ error, (s.replyTo programs line).1 = .error error := by
    cases hanswer : (s.replyTo programs line).1 with
    | error error => exact ⟨error, rfl⟩
    | ok reply =>
        rw [hanswer] at hfails
        cases hfails
  exact ⟨herror, spared_replyTo .default _ _ programs line (.inl herror), rfl, hkept⟩

end StyleSense.Service
