/-
# Sessions

A session answers requests about open documents under its settings. A document
without a tree is parsed by the configured command when it is first asked
about. A request fails when its document is not open or its tree has no
balanced scopes; switched off features, languages that are not known and
documents without a tree have no answer.
-/

import StyleSense.Assist.Completion
import StyleSense.Assist.Hover
import StyleSense.Service.Cache
import StyleSense.Service.ParserCommand
import StyleSense.Service.Settings

namespace StyleSense.Service

open StyleSense.Text StyleSense.Assist

/-- Why a request fails. -/
inductive Fault
  | notOpen (uri : String)
  | noProgram
  | analysis (failure : Failure)
  deriving DecidableEq, Repr

/-- The state between requests. -/
structure Session where
  settings : Settings
  parser : Option ParserCommand
  cache : Cache

/-- The parser that settings name, if any. -/
def parserOf (settings : Settings) : Except Fault (Option ParserCommand) :=
  match settings.parserCommand with
  | none => .ok none
  | some command =>
      match ParserCommand.ofList? command with
      | some parser => .ok (some parser)
      | none => .error .noProgram

namespace Session

/-- A session without documents. -/
def new (settings : Settings) : Except Fault Session :=
  (parserOf settings).map fun parser => ⟨settings, parser, .empty⟩

/-- The session under the default settings. -/
def initial : Session :=
  ⟨.default, none, .empty⟩

/-- Replaces the settings. Only settings that name a parser replace it. -/
def configure (s : Session) (settings : Settings) : Except Fault Session :=
  (parserOf settings).map fun parser =>
    { s with settings, parser := parser.orElse fun _ => s.parser }

/-- Keeps a tree that came with a document, if it is one. -/
def storeAst (s : Session) (uri : String) (ast : Option Json) : Session :=
  match ast.bind Node.ofJson? with
  | some tree => { s with cache := s.cache.storeTree uri tree }
  | none => s

/-- Opens a document, with its tree or without. -/
def openDocument (s : Session) (uri languageId : String) (version : Int) (text : String)
    (ast : Option Json) : Session :=
  { s with cache := s.cache.openDocument (.new uri languageId version text) }.storeAst uri ast

/-- Changes the text of a document, which keeps its language. -/
def changeDocument (s : Session) (uri : String) (version : Int) (text : String)
    (ast : Option Json) : Except Fault Session :=
  match s.cache.document? uri with
  | some previous => .ok (s.openDocument uri previous.languageId version text ast)
  | none => .error (.notOpen uri)

/-- Closes a document. -/
def closeDocument (s : Session) (uri : String) : Session :=
  { s with cache := s.cache.close uri }

/-- The number of open documents. -/
def openDocuments (s : Session) : Nat :=
  s.cache.size

/-- The names that an analysis starts with. -/
def tracker (s : Session) : Tracker :=
  .withModules s.settings.aliasModuleNames

/-- The tree of a document: the one that is kept, or one from the parser, which
is then kept. -/
def treeFor (s : Session) (programs : Programs) (document : Document) : Option Node × Session :=
  match s.cache.tree? document.uri with
  | some (tree, cache) => (some tree, { s with cache })
  | none =>
      let parsed := s.parser.bind fun parser =>
        parser.tree? programs (s.settings.parsedLanguage document.languageId) document.text
      match parsed with
      | some tree => (some tree, { s with cache := s.cache.storeTree document.uri tree })
      | none => (none, s)

/-- Runs an analysis on a document. The answer is none where the feature is
switched off, the language is not known or there is no tree. -/
def analyse {α : Type} (s : Session) (programs : Programs) (enabled : Bool) (uri : String)
    (analysis : Document → Node → Except Failure (Option α)) :
    Except Fault (Option α) × Session :=
  match s.cache.document? uri with
  | none => (.error (.notOpen uri), s)
  | some document =>
      if !enabled || !s.settings.supportsLanguage document.languageId then (.ok none, s)
      else
        match s.treeFor programs document with
        | (none, s) => (.ok none, s)
        | (some tree, s) => ((analysis document tree).mapError .analysis, s)

/-- The preview at a position. -/
def hover (s : Session) (programs : Programs) (uri : String) (position : Position)
    (token : Token) : Except Fault (Option Hover) × Session :=
  s.analyse programs s.settings.hover uri fun document tree =>
    hover? document tree s.tracker position s.settings.normalizer token

/-- The suggestions at a position. -/
def completions (s : Session) (programs : Programs) (uri : String) (position : Position)
    (token : Token) : Except Fault (Option CompletionList) × Session :=
  s.analyse programs s.settings.suggestions uri fun document tree =>
    completions? document tree s.tracker position token

/-- The swatches of a document, which are kept for later presentations. -/
def documentColors (s : Session) (programs : Programs) (uri : String) (token : Token) :
    Except Fault (Option (List Swatch)) × Session :=
  let (answer, s) := s.analyse programs s.settings.colorDecorators uri fun document tree =>
    swatches? document tree s.tracker token
  match answer with
  | .ok (some swatches) => (answer, { s with cache := s.cache.storeSwatches uri swatches })
  | _ => (answer, s)

/-- The notations offered for a color in place of a swatch. -/
def colorPresentation (s : Session) (uri : String) (range : Range) (color : Color) : List String :=
  Swatch.presentations ((s.cache.swatches? uri).getD []) range color

end Session

end StyleSense.Service
