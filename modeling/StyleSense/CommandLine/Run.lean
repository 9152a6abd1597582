/-
# Running a command line

What a command line prints and how it ends, given the files it may read. A
command line that cannot be read ends with two, any other failure with one.
Files whose colors cannot be told are passed over.
-/

import StyleSense.Assist.Swatches
import StyleSense.CommandLine.Help
import StyleSense.Json.Printer
import StyleSense.Service.Encoding
import StyleSense.Service.Settings
import StyleSense.Tree.Reader

namespace StyleSense.CommandLine

open StyleSense.Text StyleSense.Assist StyleSense.Service

/-- The text of a file, if it can be read. -/
abbrev Files := String → Option String

/-- Why a command fails. -/
inductive CommandError
  | logLevel (name : String)
  | settings (path : String)
  | source (path : String)
  | ast (path : String)
  | pair (text : String)
  | analysis (failure : Failure)
  | noTransport
  deriving DecidableEq, Repr

/-- The wording of a failure. -/
def CommandError.message : CommandError → String
  | logLevel name => "Unknown log level \x60" ++ name ++ "\x60"
  | settings path => "Cannot load settings from " ++ path
  | source path => "Cannot read source file " ++ path
  | ast path => "Cannot read syntax tree " ++ path
  | pair text => "Expected <source>=<ast.json>, got \x60" ++ text ++ "\x60"
  | analysis (.scope error) => error.message
  | analysis (.cut _) => "Cannot cut the text"
  | noTransport => "No transport to serve on"

/-- How a command line ends: its code, and what it prints. -/
structure Report where
  code : UInt32
  output : String
  errors : String
  deriving DecidableEq, Repr

/-- Names of log levels, in any case. -/
def logLevels : List String :=
  ["off", "error", "warn", "info", "debug", "trace"]

/-- The part of a file's name after its last point. A name that only starts with
a point has none. -/
def extension? (path : String) : Option String :=
  let name := (path.toList.reverse.takeWhile (· ≠ '/')).reverse
  let last := (name.reverse.takeWhile (· ≠ '.')).reverse
  if last.length + 1 < name.length && name ≠ ['.', '.'] then some (String.ofList last) else none

/-- The settings in a file. -/
def loadSettings? (files : Files) (path : String) : Option Settings :=
  let form := if extension? path = some "json" then SettingsForm.json else SettingsForm.toml
  (files path).bind (Settings.ofText? form)

/-- The language of a source, told by its name. -/
def languageOf (path : String) : String :=
  match extension? path with
  | some "tsx" => "typescriptreact"
  | some "jsx" => "javascriptreact"
  | some "js" | some "mjs" | some "cjs" => "javascript"
  | _ => "typescript"

/-- A source with its tree. -/
def loadPair (files : Files) (source ast : String) : Except CommandError (Document × Node) :=
  match files source with
  | none => .error (.source source)
  | some text =>
      match (files ast).bind Node.ofText? with
      | none => .error (.ast ast)
      | some tree => .ok (.new source (languageOf source) 0 text, tree)

/-- The two names around the first equals sign. -/
def splitPair (text : String) : Except CommandError (String × String) :=
  match splitOnce? ['='] text.toList with
  | some (source@(_ :: _), ast@(_ :: _)) => .ok (String.ofList source, String.ofList ast)
  | _ => .error (.pair text)

/-- The names that an analysis starts with. -/
def trackerOf (settings : Settings) : Tracker :=
  .withModules settings.aliasModuleNames

/-- Prints the preview at a position, if there is one. -/
def runHover (files : Files) (settings : Settings) (source ast : String) (position : Position) :
    Except CommandError String := do
  let (document, tree) ← loadPair files source ast
  match hover? document tree (trackerOf settings) position settings.normalizer .never with
  | .ok (some hover) => pure (hover.contents ++ "\n")
  | .ok none => pure ""
  | .error failure => throw (.analysis failure)

/-- The swatches of a source as a JSON value. -/
def swatchesOf (files : Files) (settings : Settings) (source ast : String) :
    Except CommandError Json := do
  let (document, tree) ← loadPair files source ast
  match swatches? document tree (trackerOf settings) .never with
  | .ok found => pure (.array ((found.getD []).map jsonOfSwatch))
  | .error failure => throw (.analysis failure)

/-- Whether a field comes no later than another one by its name. -/
def nameNotAfter (a b : String × Json) : Bool :=
  compareCodePoints a.1.toList b.1.toList ≠ .gt

/-- Prints the swatches of all sources under their names. -/
def runColors (files : Files) (settings : Settings) (pairs : List String) :
    Except CommandError String := do
  let pairs ← pairs.mapM splitPair
  let fields := pairs.foldl (fun fields (source, ast) =>
    match swatchesOf files settings source ast with
    | .ok swatches => Dictionary.put source swatches fields
    | .error _ => fields) []
  pure ((Json.object (fields.mergeSort nameNotAfter)).pretty 0 ++ "\n")

/-- Carries out a task. -/
def runTask (files : Files) (settings : Settings) : Task → Except CommandError String
  | .hover source ast line character => runHover files settings source ast ⟨line, character⟩
  | .colors pairs => runColors files settings pairs
  | .serve _ => throw .noTransport

/-- The settings that a command line names. -/
def settingsOf (files : Files) : Option String → Except CommandError Settings
  | none => .ok .default
  | some path =>
      match loadSettings? files path with
      | some settings => .ok settings
      | none => .error (.settings path)

/-- Carries out a command line that was read. -/
def runLine (files : Files) (c : Instruction) : Except CommandError String := do
  if !logLevels.contains (String.ofList (lowerAscii c.logLevel.toList)) then
    throw (.logLevel c.logLevel)
  let settings ← settingsOf files c.config
  runTask files settings c.task

/-- Lines, each ended by a line feed. -/
def linesText (lines : List String) : String :=
  String.join (lines.map (· ++ "\n"))

/-- Runs a command line. -/
def run (files : Files) (args : List String) : Report :=
  match read args with
  | .error .faulty => ⟨2, "", "error: the command line cannot be read; try '--help'\n"⟩
  | .error .version => ⟨0, linesText [versionText], ""⟩
  | .error (.help topic) => ⟨0, linesText (helpLines topic), ""⟩
  | .ok c =>
      match runLine files c with
      | .ok output => ⟨0, output, ""⟩
      | .error error => ⟨1, "", "Error: " ++ error.message ++ "\n"⟩

end StyleSense.CommandLine
