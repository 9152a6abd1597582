/-
# The program

Reads the files that a command line may name, prints the report and ends with
its code.
-/

import StyleSense.CommandLine.Run

open StyleSense.CommandLine

/-- The texts of those files among `names` that can be read. -/
def readFiles : List String → IO (List (String × String))
  | [] => pure []
  | name :: rest => do
      let others ← readFiles rest
      try
        let text ← IO.FS.readFile name
        pure ((name, text) :: others)
      catch _ => pure others

/-- The files that a command line names. -/
def filesOf (c : Instruction) : List String :=
  c.config.toList ++
    match c.task with
    | .hover source ast _ _ => [source, ast]
    | .colors pairs => pairs.flatMap fun text =>
        match splitPair text with
        | .ok (source, ast) => [source, ast]
        | .error _ => []
    | .serve _ => []

/-- Runs the program. -/
def main (args : List String) : IO UInt32 := do
  let names := match read args with
    | .ok c => filesOf c
    | .error _ => []
  let files ← readFiles names
  let report := run (fun name => files.lookup name) args
  IO.print report.output
  IO.eprint report.errors
  pure report.code
