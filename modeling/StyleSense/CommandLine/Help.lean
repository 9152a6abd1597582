/-
# Help

The texts that a request for help or for the version prints.
-/

import StyleSense.CommandLine.Options

namespace StyleSense.CommandLine

/-- Name and version of the program. -/
def versionText : String :=
  "stylelens 0.1.0"

/-- What an option is for. -/
def Flag.about : Flag → String
  | .config => "Settings file (TOML, or JSON by extension)"
  | .logLevel => "Log level (error, warn, info, debug, trace) [default: info]"
  | .source => "Source file"
  | .ast => "SWC-compatible JSON syntax tree of the source"
  | .line => "Zero-based line"
  | .character => "Zero-based UTF-16 column"
  | .file => "\x60<source>=<ast.json>\x60 pairs"
  | .port => "[default: 7878]"
  | .help => "Print help"
  | .version => "Print version"

/-- What stands for an option's value. -/
def Flag.valueName : Flag → String
  | .config => " <CONFIG>"
  | .logLevel => " <LOG_LEVEL>"
  | .source => " <SOURCE>"
  | .ast => " <AST>"
  | .line => " <LINE>"
  | .character => " <CHARACTER>"
  | .file => " <FILES>"
  | .port => " <PORT>"
  | .help | .version => ""

/-- What a command is for. -/
def Topic.about : Topic → String
  | .hover => "Print the CSS preview for the style key at a position"
  | .colors => "Print the color swatches of one or more files as JSON"
  | .serve => "Run the JSON-lines API server"

/-- The options of a command in the order in which help lists them. -/
def Topic.listed : Topic → List Flag
  | .hover => [.config, .source, .ast, .logLevel, .line, .character, .help]
  | .colors => [.config, .file, .logLevel, .help]
  | .serve => [.config, .port, .logLevel, .help]

/-- An option's names and value. -/
def Flag.usage (flag : Flag) : String :=
  let letter := match flag.short? with
    | some c => "-" ++ String.singleton c ++ ", "
    | none => "    "
  letter ++ "--" ++ flag.long ++ flag.valueName

/-- Blanks up to a width. -/
def padTo (width : Nat) (text : String) : String :=
  text ++ String.ofList (List.replicate (width - text.length) ' ')

/-- Lines of two columns. -/
def columns (rows : List (String × String)) : List String :=
  let width := (rows.map fun row => row.1.length).foldl max 0
  rows.map fun (left, right) => "  " ++ padTo width left ++ "  " ++ right

/-- The lines for some options. -/
def optionLines (flags : List Flag) : List String :=
  "Options:" :: columns (flags.map fun flag => (flag.usage, flag.about))

/-- The usage line of a command. -/
def Topic.usage (topic : Topic) : String :=
  "Usage: stylelens " ++ topic.name ++ " [OPTIONS]" ++
    String.join (topic.required.map fun flag => " --" ++ flag.long ++ flag.valueName)

/-- Help on a command, or on all of them. -/
def helpLines : Option Topic → List String
  | some topic => [topic.about, "", topic.usage, ""] ++ optionLines topic.listed
  | none =>
      ["StyleLens - Static analysis engine for CSS-in-JS style objects: hover previews, " ++
          "color swatches, and value completions.", "",
        "Usage: stylelens [OPTIONS] <COMMAND>", "", "Commands:"] ++
        columns ((Topic.all.map fun topic => (topic.name, topic.about)) ++
          [("help", "Print this message or the help of the given subcommand(s)")]) ++
        "" :: optionLines [.config, .logLevel, .help, .version]

end StyleSense.CommandLine
