/-
# Command lines

A command line is a command with options. Two options belong to every command
and may stand before or after its name; where both are given, the later one
counts. Apart from the files to look at, no option may be given twice at one
place. The first fault ends the reading, and so does a request for help.
-/

import StyleSense.Text.Measure

namespace StyleSense.CommandLine

open StyleSense.Text

/-- The commands. -/
inductive Topic
  | hover
  | colors
  | serve
  deriving DecidableEq, Repr

/-- The options. -/
inductive Flag
  | config
  | logLevel
  | source
  | ast
  | line
  | character
  | file
  | port
  | help
  | version
  deriving DecidableEq, Repr

/-- What an option takes. -/
inductive Operand
  | nothing
  | text
  /-- A path must not be empty. -/
  | path
  /-- A number below a limit. -/
  | number (limit : Nat)
  deriving DecidableEq, Repr

/-- Why a command line is not carried out. -/
inductive Ending
  | faulty
  /-- Help on a command, or on all of them. -/
  | help (topic : Option Topic)
  | version
  deriving DecidableEq, Repr

namespace Topic

/-- All commands. -/
def all : List Topic := [hover, colors, serve]

/-- The name of a command. -/
def name : Topic → String
  | hover => "hover"
  | colors => "colors"
  | serve => "serve"

/-- The command of a name. -/
def ofName? (text : String) : Option Topic :=
  all.find? (·.name = text)

/-- The options of a command. -/
def flags : Topic → List Flag
  | hover => [.config, .logLevel, .help, .source, .ast, .line, .character]
  | colors => [.config, .logLevel, .help, .file]
  | serve => [.config, .logLevel, .help, .port]

/-- The options that a command needs. -/
def required : Topic → List Flag
  | hover => [.source, .ast, .line, .character]
  | colors => [.file]
  | serve => []

end Topic

namespace Flag

/-- The options before a command. -/
def leading : List Flag := [config, logLevel, help, version]

/-- The long name of an option. -/
def long : Flag → String
  | config => "config"
  | logLevel => "log-level"
  | source => "source"
  | ast => "ast"
  | line => "line"
  | character => "character"
  | file => "file"
  | port => "port"
  | help => "help"
  | version => "version"

/-- The one-letter name of an option. -/
def short? : Flag → Option Char
  | config => some 'c'
  | file => some 'f'
  | port => some 'p'
  | help => some 'h'
  | version => some 'V'
  | _ => none

/-- What an option takes. -/
def operand : Flag → Operand
  | config | source | ast => .path
  | logLevel | file => .text
  | line | character => .number 4294967296
  | port => .number 65536
  | help | version => .nothing

/-- Whether an option may be given several times. -/
def repeats : Flag → Bool
  | file => true
  | _ => false

end Flag

/-- A number below a limit, with an optional sign; only zero may be
negative. -/
def readNumber? (limit : Nat) (text : String) : Option Nat :=
  match text.toList with
  | '-' :: digits => (readDigits? 10 digits).filter (· = 0)
  | digits => readBounded? 10 limit digits

/-- Whether an option takes a value. -/
def Operand.admits : Operand → String → Bool
  | .nothing, _ => false
  | .text, _ => true
  | .path, value => value ≠ ""
  | .number limit, value => (readNumber? limit value).isSome

/-- Options with their values, in order. -/
abbrev Values := List (Flag × String)

/-- What a word of a command line is. -/
inductive Word
  /-- No options follow. -/
  | stop
  /-- An option by its name, perhaps with a value. -/
  | option (flag : Option Flag) (value : Option String)
  | plain

/-- A word where options of `allowed` may stand. -/
def wordOf (allowed : List Flag) (text : String) : Word :=
  match text.toList with
  | ['-', '-'] => .stop
  | '-' :: '-' :: rest =>
      let name := String.ofList (rest.takeWhile (· ≠ '='))
      let value := match rest.dropWhile (· ≠ '=') with
        | [] => none
        | _ :: value => some (String.ofList value)
      .option (allowed.find? (·.long = name)) value
  | '-' :: letter :: rest =>
      let value := match rest with
        | [] => none
        | '=' :: value => some (String.ofList value)
        | value => some (String.ofList value)
      match allowed.find? (·.short? = some letter) with
      | some flag =>
          .option (some flag) (if flag.operand = .nothing then none else value)
      | none => .option none value
  | _ => .plain

/-- Whether a word may be the value of the option before it. -/
def isOperand (text : String) : Bool :=
  text.toList.head? ≠ some '-' || text = "-"

/-- Takes a value for an option, after those of `values`. -/
def take (values : Values) (flag : Flag) (value : String) : Except Ending Values :=
  if !flag.operand.admits value || (!flag.repeats && values.any (·.1 = flag)) then .error .faulty
  else .ok (values ++ [(flag, value)])

/-- Reads options up to the first other word, which is left in place. -/
def readOptions (topic : Option Topic) (allowed : List Flag) (values : Values) :
    List String → Except Ending (Values × List String)
  | [] => .ok (values, [])
  | text :: rest =>
      match wordOf allowed text with
      | .plain => .ok (values, text :: rest)
      | .stop => if rest.isEmpty then .ok (values, []) else .error .faulty
      | .option none _ => .error .faulty
      | .option (some .help) none => .error (.help topic)
      | .option (some .version) none => .error .version
      | .option (some flag) (some value) => do
          let values ← take values flag value
          readOptions topic allowed values rest
      | .option (some flag) none =>
          match rest with
          | value :: rest =>
              if isOperand value then do
                let values ← take values flag value
                readOptions topic allowed values rest
              else .error .faulty
          | [] => .error .faulty

/-- The last value of an option. -/
def Values.last? (values : Values) (flag : Flag) : Option String :=
  ((values.filter (·.1 = flag)).getLast?).map (·.2)

/-- All values of an option. -/
def Values.all (values : Values) (flag : Flag) : List String :=
  (values.filter (·.1 = flag)).map (·.2)

/-- The last value of an option that takes a number. -/
def Values.number (values : Values) (flag : Flag) : Nat :=
  ((values.last? flag).bind (readNumber? 4294967296)).getD 0

/-- What is to be done. -/
inductive Task
  | hover (source ast : String) (line character : UInt32)
  | colors (files : List String)
  | serve (port : Nat)
  deriving DecidableEq, Repr

/-- What a command line asks for. -/
structure Instruction where
  config : Option String
  logLevel : String
  task : Task
  deriving DecidableEq, Repr

/-- The task of a command with all its options. -/
def taskOf (values : Values) : Topic → Task
  | .hover =>
      .hover ((values.last? .source).getD "") ((values.last? .ast).getD "")
        (UInt32.ofNat (values.number .line)) (UInt32.ofNat (values.number .character))
  | .colors => .colors (values.all .file)
  | .serve => .serve (((values.last? .port).bind (readNumber? 65536)).getD 7878)

/-- Reads a command after the options before it. -/
def readCommand (leading : Values) (topic : Topic) (args : List String) :
    Except Ending Instruction := do
  let (own, rest) ← readOptions (some topic) topic.flags [] args
  if !rest.isEmpty || !topic.required.all fun flag => own.any (·.1 = flag) then throw .faulty
  let values := leading ++ own
  pure ⟨values.last? .config, (values.last? .logLevel).getD "info", taskOf values topic⟩

/-- Reads a request for help by name. -/
def readHelp : List String → Ending
  | [] => .help none
  | [name] =>
      match Topic.ofName? name with
      | some topic => .help (some topic)
      | none => .faulty
  | _ => .faulty

/-- Reads a command line. -/
def read (args : List String) : Except Ending Instruction := do
  let (leading, rest) ← readOptions none Flag.leading [] args
  match rest with
  | [] => throw .faulty
  | name :: rest =>
      match Topic.ofName? name with
      | some topic => readCommand leading topic rest
      | none => throw (if name = "help" then readHelp rest else .faulty)

end StyleSense.CommandLine
