/-
# Parser commands

A program that reads a source and writes its tree. Its name and arguments may
leave open the language of the source and whether it embeds markup; both are
filled in for each source.
-/

import StyleSense.Tree.Reader

namespace StyleSense.Service

open StyleSense.Text

/-- A program with its arguments. -/
structure Invocation where
  program : String
  arguments : List String
  deriving DecidableEq, Repr

/-- A command whose words may leave open the language. -/
structure ParserCommand where
  template : Invocation
  deriving DecidableEq, Repr

namespace ParserCommand

/-- The message for a command without words. -/
def noProgram : String := "Parser command must name a program"

/-- The command of some words; the first names the program. -/
def ofList? : List String → Option ParserCommand
  | [] => none
  | program :: arguments => some ⟨⟨program, arguments⟩⟩

/-- One word for a language. The name of the language is filled in first. -/
def fill (languageId word : String) : String :=
  let tsx := if endsWith languageId.toList "react".toList then "true" else "false"
  let named := replaceAll "\x7blanguageId\x7d".toList languageId.toList word.toList
  String.ofList (replaceAll "\x7btsx\x7d".toList tsx.toList named)

/-- The command for a language. -/
def invocation (c : ParserCommand) (languageId : String) : Invocation :=
  ⟨fill languageId c.template.program, c.template.arguments.map (fill languageId)⟩

end ParserCommand

/-- What programs write for an input; none when one cannot be run or fails. -/
abbrev Programs := Invocation → String → Option String

/-- The tree that a command writes for a source. -/
def ParserCommand.tree? (c : ParserCommand) (programs : Programs) (languageId source : String) :
    Option Node :=
  (programs (c.invocation languageId) source).bind Node.ofText?

end StyleSense.Service
