/-
# Settings

What a user may set. Settings come from a JSON or TOML text or with a request,
and every one that is left out has its default. A language is known when it is
built in or when it is mapped to another one.
-/

import StyleSense.Json.Reader
import StyleSense.Json.Record
import StyleSense.Scope.Tracker
import StyleSense.Style.Normalize
import StyleSense.Toml.Reader

namespace StyleSense.Service

/-- The settings. -/
structure Settings where
  /-- Further languages, each treated as another one. -/
  includedLanguages : Dictionary String
  /-- Modules that export the style API. -/
  aliasModuleNames : List String
  useRemForFontSize : Bool
  hover : Bool
  suggestions : Bool
  colorDecorators : Bool
  /-- The program, with arguments, that parses documents. -/
  parserCommand : Option (List String)
  deriving DecidableEq, Repr

/-- Languages that are known in any case. -/
def builtinLanguages : List String :=
  ["javascript", "javascriptreact", "typescript", "typescriptreact"]

/-- The forms in which settings are written. -/
inductive SettingsForm
  | json
  | toml
  deriving DecidableEq, Repr

namespace Settings

/-- The settings of one who sets nothing. -/
def default : Settings :=
  { includedLanguages := []
    aliasModuleNames := defaultModules
    useRemForFontSize := false
    hover := true
    suggestions := true
    colorDecorators := true
    parserCommand := none }

/-- The names of the settings, in their order. -/
def names : List String :=
  ["includedLanguages", "aliasModuleNames", "useRemForFontSize", "hover", "suggestions",
    "colorDecorators", "parserCommand"]

/-- Settings as a record. -/
def ofJson? (value : Json) : Option Settings := do
  let fields ← Json.recordFields? names 0 value
  let includedLanguages ← Json.withDefault? (Json.asDictionary? Json.asString?)
    default.includedLanguages "includedLanguages" fields
  let aliasModuleNames ← Json.withDefault? (Json.asList? Json.asString?)
    default.aliasModuleNames "aliasModuleNames" fields
  let useRemForFontSize ← Json.withDefault? Json.asBool?
    default.useRemForFontSize "useRemForFontSize" fields
  let hover ← Json.withDefault? Json.asBool? default.hover "hover" fields
  let suggestions ← Json.withDefault? Json.asBool? default.suggestions "suggestions" fields
  let colorDecorators ← Json.withDefault? Json.asBool?
    default.colorDecorators "colorDecorators" fields
  let parserCommand ← Json.withDefault? (Json.orNull? (Json.asList? Json.asString?))
    default.parserCommand "parserCommand" fields
  some { includedLanguages, aliasModuleNames, useRemForFontSize, hover, suggestions,
         colorDecorators, parserCommand }

/-- Settings from a text. -/
def ofText? (form : SettingsForm) (text : String) : Option Settings :=
  match form with
  | .json => (Json.ofText? text).bind ofJson?
  | .toml => (Toml.ofText? text).bind ofJson?

/-- The settings as an object with all fields. -/
def toJson (s : Settings) : Json :=
  .object
    [("includedLanguages", .object (s.includedLanguages.map fun (name, value) =>
        (name, .string value))),
      ("aliasModuleNames", .array (s.aliasModuleNames.map .string)),
      ("useRemForFontSize", .bool s.useRemForFontSize),
      ("hover", .bool s.hover),
      ("suggestions", .bool s.suggestions),
      ("colorDecorators", .bool s.colorDecorators),
      ("parserCommand", match s.parserCommand with
        | some command => .array (command.map .string)
        | none => .null)]

/-- How values are normalized. -/
def normalizer (s : Settings) : Style.Normalizer :=
  ⟨s.useRemForFontSize⟩

/-- Whether documents of a language are analysed. -/
def supportsLanguage (s : Settings) (languageId : String) : Bool :=
  builtinLanguages.contains languageId || Dictionary.has languageId s.includedLanguages

/-- The language that a parser is asked for. -/
def parsedLanguage (s : Settings) (languageId : String) : String :=
  (Dictionary.get? languageId s.includedLanguages).getD languageId

end Settings

end StyleSense.Service
