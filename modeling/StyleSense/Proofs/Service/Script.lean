/-
# Requests as scripts

A service answers several clients at once, and all of them share one cache. Of
a request the others see only the calls that it makes of the cache, each of
which is done at once. So a request is written here as the calls that it makes,
in their order, each depending on what the earlier ones handed back. Between
them it works on what it holds: it parses a document or walks a tree, and while
it does, the cache may change.

A script that runs alone answers as the session does (`run_script`).
-/

import StyleSense.Proofs.Service.Cache
import StyleSense.Proofs.Service.Run

namespace StyleSense.Service

open StyleSense.Assist

/-- A call of the cache. -/
inductive Call
  | document (uri : String)
  | openDocument (document : Document)
  | close (uri : String)
  | tree (uri : String)
  | storeTree (uri : String) (tree : Node)
  | swatches (uri : String)
  | storeSwatches (uri : String) (swatches : List Swatch)

/-- What a call hands back. -/
abbrev Call.Result : Call → Type
  | document _ => Option Document
  | tree _ => Option Node
  | swatches _ => Option (List Swatch)
  | openDocument _ | close _ | storeTree .. | storeSwatches .. => Unit

/-- Makes a call. -/
def Call.run : (call : Call) → Cache → call.Result × Cache
  | document uri, c => (c.document? uri, c)
  | openDocument opened, c => ((), c.openDocument opened)
  | close uri, c => ((), c.close uri)
  | tree uri, c =>
      match c.tree? uri with
      | some (found, next) => (some found, next)
      | none => (none, c)
  | storeTree uri kept, c => ((), c.storeTree uri kept)
  | swatches uri, c => (c.swatches? uri, c)
  | storeSwatches uri kept, c => ((), c.storeSwatches uri kept)

namespace Call

/-- Whether a call opens a document anew or closes it. -/
def renews (uri : String) : Call → Bool
  | .openDocument opened => opened.uri = uri
  | .close name => name = uri
  | _ => false

/-- Whether from a call on a request holds the document that is open. -/
def takesUp (uri : String) : Call → Bool
  | .document name => name = uri
  | .openDocument opened => opened.uri = uri
  | _ => false

/-- Whether a call keeps something under the name of a document. -/
def keeps (uri : String) : Call → Bool
  | .storeTree name _ | .storeSwatches name _ => name = uri
  | _ => false

end Call

/-- What the cache may hand back. -/
def Call.Returns : (call : Call) → call.Result → Prop
  | .document name, found => ∀ document, found = some document → document.uri = name
  | _, _ => True

section

variable {c : Cache} {call : Call} {uri : String}

theorem Call.valid_run (hc : c.Valid) (call : Call) : (call.run c).2.Valid := by
  cases call with
  | document | swatches => exact hc
  | openDocument opened => exact Cache.valid_openDocument hc opened
  | close name => exact Cache.valid_close hc name
  | tree name =>
      rw [Call.run]
      rcases hkept : c.tree? name with - | ⟨tree, next⟩
      · exact hc
      · exact (Cache.tree?_spec hc hkept).2.1
  | storeTree name made => exact Cache.valid_storeTree hc name made
  | storeSwatches name made => exact Cache.valid_storeSwatches hc name made

theorem Call.returns_run (hc : c.Valid) (call : Call) : call.Returns (call.run c).1 := by
  cases call with
  | document name => exact hc.named name
  | _ => trivial

/-- The tree that is handed back is the one that is kept. -/
theorem Call.run_tree (c : Cache) (name : String) : ((Call.tree name).run c).1 = c.kept? name := by
  rw [Call.run, Cache.tree?_eq]
  cases c.kept? name <;> rfl

/-- Nothing is kept under the name of a document that was just opened or closed. -/
theorem Call.run_of_renews (hc : c.Valid) (h : call.renews uri = true) :
    (call.run c).2.kept? uri = none ∧ (call.run c).2.swatches? uri = none := by
  cases call with
  | openDocument opened =>
      obtain rfl : opened.uri = uri := of_decide_eq_true h
      exact ⟨Cache.kept?_openDocument_self hc opened, Cache.swatches?_openDocument_self hc opened⟩
  | close name =>
      obtain rfl : name = uri := of_decide_eq_true h
      exact ⟨Cache.kept?_close_self hc name, Cache.swatches?_close_self hc name⟩
  | _ => cases h

/-- A call that does not renew a document keeps nothing under its name but what
it says. Trees may go to make room. -/
theorem Call.run_of_not_renews (hc : c.Valid) (h : call.renews uri = false) :
    (call.run c).2.document? uri = c.document? uri ∧
      (∀ tree, (call.run c).2.kept? uri = some tree →
        c.kept? uri = some tree ∨ call = .storeTree uri tree) ∧
      ∀ swatches, (call.run c).2.swatches? uri = some swatches →
        c.swatches? uri = some swatches ∨ ∃ made, call = .storeSwatches uri made ∧
          swatches = made.mergeSort Coloring.startsNoLater := by
  cases call with
  | document | swatches => exact ⟨rfl, fun _ hkept => .inl hkept, fun _ hkept => .inl hkept⟩
  | openDocument opened =>
      have hne : uri ≠ opened.uri := Ne.symm (of_decide_eq_false h)
      exact ⟨Cache.document?_openDocument_of_ne hne c,
        fun _ hkept => .inl ((Cache.kept?_openDocument_of_ne hne c).symm.trans hkept),
        fun _ hkept => .inl ((Cache.swatches?_openDocument_of_ne hne c).symm.trans hkept)⟩
  | close name =>
      have hne : uri ≠ name := Ne.symm (of_decide_eq_false h)
      exact ⟨Cache.document?_close_of_ne hne c,
        fun _ hkept => .inl ((Cache.kept?_close_of_ne hne c).symm.trans hkept),
        fun _ hkept => .inl ((Cache.swatches?_close_of_ne hne c).symm.trans hkept)⟩
  | tree name =>
      rw [Call.run]
      rcases hfound : c.tree? name with - | ⟨found, next⟩
      · exact ⟨rfl, fun _ hkept => .inl hkept, fun _ hkept => .inl hkept⟩
      · obtain ⟨-, -, hdocuments, hswatches, htrees⟩ := Cache.tree?_spec hc hfound
        refine ⟨?_, fun tree hkept => .inl ?_, fun swatches hkept => .inl ?_⟩
        · exact congrArg (Dictionary.get? uri) hdocuments
        · exact (htrees uri).symm.trans hkept
        · exact (congrArg (Dictionary.get? uri) hswatches).symm.trans hkept
  | storeTree name made =>
      refine ⟨rfl, fun tree hkept => ?_, fun _ hkept => .inl hkept⟩
      by_cases hname : uri = name
      · subst hname
        exact .inr (congrArg _ (Option.some.inj
          ((Cache.kept?_storeTree_self c uri made).symm.trans hkept)))
      · exact .inl (Cache.kept?_of_kept?_storeTree hname hkept)
  | storeSwatches name made =>
      refine ⟨rfl, fun _ hkept => .inl hkept, fun swatches hkept => ?_⟩
      by_cases hname : uri = name
      · subst hname
        exact .inr ⟨made, rfl, (Option.some.inj
          ((Cache.swatches?_storeSwatches_self c uri made).symm.trans hkept)).symm⟩
      · exact .inl ((Cache.swatches?_storeSwatches_of_ne hname c made).symm.trans hkept)

end

/-- What a request has left to do. -/
inductive Script
  | done (answer : Except Fault Reply)
  /-- Works without a call of the cache. -/
  | work (next : Script)
  | call (call : Call) (next : call.Result → Script)

/-- Runs a script with nothing in between. -/
def Script.run : Script → Cache → Except Fault Reply × Cache
  | done answer, c => (answer, c)
  | work next, c => next.run c
  | call made next, c => (next (made.run c).1).run (made.run c).2

/-- Opens a document, and keeps the tree that came with it, if it is one. -/
def Script.deliver (document : Document) (ast : Option Json) : Script :=
  .call (.openDocument document) fun _ =>
    match ast.bind Node.ofJson? with
    | some tree => .call (.storeTree document.uri tree) fun _ => .done (.ok .done)
    | none => .done (.ok .done)

namespace Session

/-- Walks the tree of a document, and goes on with the answer. -/
def walking {α : Type} (document : Document)
    (analysis : Document → Node → Except Failure (Option α))
    (finish : Except Fault (Option α) → Script) (tree : Node) : Script :=
  .work (finish ((analysis document tree).mapError .analysis))

/-- Runs an analysis on a document, and goes on with the answer. -/
def analysing {α : Type} (s : Session) (programs : Programs) (enabled : Bool) (uri : String)
    (analysis : Document → Node → Except Failure (Option α))
    (finish : Except Fault (Option α) → Script) : Script :=
  .call (.document uri) fun
    | none => finish (.error (.notOpen uri))
    | some document =>
        if !enabled || !s.settings.supportsLanguage document.languageId then finish (.ok none)
        else .call (.tree document.uri) fun
          | some tree => walking document analysis finish tree
          | none => .work <|
              match s.parse? programs document with
              | some tree =>
                  .call (.storeTree document.uri tree) fun _ =>
                    walking document analysis finish tree
              | none => finish (.ok none)

/-- Answers with the swatches of a document, and keeps them if there are any to
answer with. -/
def showing (uri : String) (answer : Except Fault (Option (List Swatch))) : Script :=
  match answer with
  | .ok (some swatches) =>
      .call (.storeSwatches uri swatches) fun _ => .done (answer.map .colors)
  | _ => .done (answer.map .colors)

/-- The script of a request. It depends on the settings and the parser of the
session, and not on what the session keeps. -/
def script (s : Session) (programs : Programs) (token : Token) : Request → Script
  | .ping => .done (.ok .pong)
  | .configure settings => .done ((s.configure settings).map fun _ => .done)
  | .openDocument uri languageId version text ast =>
      .deliver (.new uri languageId version text) ast
  | .change uri version text ast =>
      .call (.document uri) fun
        | some previous => .deliver (.new uri previous.languageId version text) ast
        | none => .done (.error (.notOpen uri))
  | .close uri => .call (.close uri) fun _ => .done (.ok .done)
  | .hover uri position =>
      s.analysing programs s.settings.hover uri (fun document tree =>
        hover? document tree s.tracker position s.settings.normalizer token)
        fun answer => .done (answer.map .hover)
  | .complete uri position =>
      s.analysing programs s.settings.suggestions uri (fun document tree =>
        completions? document tree s.tracker position token)
        fun answer => .done (answer.map .completions)
  | .colors uri =>
      s.analysing programs s.settings.colorDecorators uri (fun document tree =>
        swatches? document tree s.tracker token) (showing uri)
  | .colorPresentation uri range color =>
      .call (.swatches uri) fun swatches =>
        .done (.ok (.presentations (Swatch.presentations (swatches.getD []) range color)))
  | .shutdown => .done (.ok .goodbye)

variable (s : Session) (programs : Programs)

theorem run_deliver (uri languageId : String) (version : Int) (text : String)
    (ast : Option Json) :
    (Script.deliver (.new uri languageId version text) ast).run s.cache =
      (.ok .done, (s.openDocument uri languageId version text ast).cache) := by
  rw [Script.deliver, Script.run, openDocument, storeAst]
  cases ast.bind Node.ofJson? <;> rfl

theorem run_analysing {α : Type} (enabled : Bool) (uri : String)
    (analysis : Document → Node → Except Failure (Option α))
    (finish : Except Fault (Option α) → Script) :
    (s.analysing programs enabled uri analysis finish).run s.cache =
      (finish (s.analyse programs enabled uri analysis).1).run
        (s.analyse programs enabled uri analysis).2.cache := by
  rw [analysing, Script.run, analyse]
  simp only [Call.run]
  cases s.cache.document? uri with
  | none => rfl
  | some document =>
      dsimp only
      split
      · rfl
      · rw [Script.run, treeFor]
        simp only [Call.run]
        cases s.cache.tree? document.uri with
        | some found => rfl
        | none =>
            rw [Script.run, ← parse?]
            cases s.parse? programs document <;> rfl

/-- A script that runs alone answers as the session does, and leaves the cache
as the session does. -/
theorem run_script (request : Request) :
    (s.script programs .never request).run s.cache =
      ((s.reply programs request).1, (s.reply programs request).2.cache) := by
  cases request with
  | ping | shutdown | close | colorPresentation => rfl
  | configure settings =>
      rw [script, reply, configure]
      cases parserOf settings <;> rfl
  | openDocument uri languageId version text ast =>
      exact s.run_deliver uri languageId version text ast
  | change uri version text ast =>
      rw [script, Script.run, reply, changeDocument]
      simp only [Call.run]
      cases s.cache.document? uri with
      | none => rfl
      | some previous => exact s.run_deliver uri previous.languageId version text ast
  | hover uri position | complete uri position =>
      rw [script, run_analysing]
      rfl
  | colors uri =>
      rw [script, run_analysing, reply, documentColors]
      rcases s.analyse programs s.settings.colorDecorators uri fun document tree =>
        swatches? document tree s.tracker .never with ⟨fault | - | swatches, next⟩ <;> rfl

end Session

end StyleSense.Service
