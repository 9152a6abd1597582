/-
# TOML strings

A string stands between single or double quotes, on one line, or between three
of them over several. Escapes work between double quotes only. A line break
after the opening quotes is dropped, and every other one is read as a line
feed. Up to two quotes may stand next to the closing three.
-/

import StyleSense.Text.Measure

namespace StyleSense.Toml

open StyleSense.Text

/-- A reader takes what it understands from the front of a text. -/
abbrev Reader (α : Type) := List Char → Option (α × List Char)

/-- Blanks within a line. -/
def isSpace (c : Char) : Bool :=
  c = ' ' || c = '\t'

/-- Characters that may stand as they are: no control character but the tab. -/
def isPlain (c : Char) : Bool :=
  c = '\t' || (0x20 ≤ c.toNat && c.toNat ≠ 0x7F)

/-- What follows a line break. -/
def newline? : List Char → Option (List Char)
  | '\n' :: rest => some rest
  | '\r' :: '\n' :: rest => some rest
  | _ => none

/-- Blanks and line breaks left out. -/
def skipBlanks : List Char → List Char
  | '\r' :: '\n' :: rest => skipBlanks rest
  | c :: rest => if isSpace c || c = '\n' then skipBlanks rest else c :: rest
  | [] => []

/-- The character whose number some hexadecimal digits write. -/
def scalar? (digits : List Char) : Option Char :=
  (readDigits? 16 digits).bind fun n =>
    if n < 0xD800 || (0xE000 ≤ n && n < 0x110000) then some (Char.ofNat n) else none

/-- The character of an escape, and how many characters write it after the
backslash. -/
def escape? : List Char → Option (Char × Nat)
  | [] => none
  | c :: rest =>
      match c with
      | 'b' => some ('\x08', 1)
      | 't' => some ('\t', 1)
      | 'n' => some ('\n', 1)
      | 'f' => some ('\x0c', 1)
      | 'r' => some ('\r', 1)
      | '"' => some ('"', 1)
      | '\\' => some ('\\', 1)
      | 'u' => if 4 ≤ rest.length then (scalar? (rest.take 4)).map (·, 5) else none
      | 'U' => if 8 ≤ rest.length then (scalar? (rest.take 8)).map (·, 9) else none
      | _ => none

/-- A string on one line, after its opening quote. The next `skip` characters
belong to an escape. -/
def line? (quote : Char) : Nat → Reader (List Char)
  | _, [] => none
  | skip + 1, _ :: rest => line? quote skip rest
  | 0, c :: rest =>
      if c = quote then some ([], rest)
      else if c = '\\' && quote = '"' then do
        let (d, width) ← escape? rest
        let (text, after) ← line? quote width rest
        some (d :: text, after)
      else if isPlain c then do
        let (text, after) ← line? quote 0 rest
        some (c :: text, after)
      else none

/-- How many characters a backslash at the end of a line takes away: the line
break and all blanks around it. -/
def continuation? (cs : List Char) : Option Nat :=
  if (newline? (cs.dropWhile isSpace)).isSome then some (cs.length - (skipBlanks cs).length)
  else none

/-- A string over several lines, after its opening quotes. The next `skip`
characters are read already. -/
def lines? (quote : Char) : Nat → Reader (List Char)
  | _, [] => none
  | skip + 1, _ :: rest => lines? quote skip rest
  | 0, c :: rest =>
      let quotes := ((c :: rest).takeWhile (· = quote)).length
      if 3 ≤ quotes then
        let taken := min quotes 5
        some (List.replicate (taken - 3) quote, (c :: rest).drop taken)
      else if c = '\\' && quote = '"' then
        match continuation? rest with
        | some width => lines? quote width rest
        | none => do
            let (d, width) ← escape? rest
            let (text, after) ← lines? quote width rest
            some (d :: text, after)
      else if isPlain c || c = '\n' then do
        let (text, after) ← lines? quote 0 rest
        some (c :: text, after)
      else if c = '\r' && rest.head? = some '\n' then lines? quote 0 rest
      else none

/-- A text without the line break at its start. -/
def dropNewline (cs : List Char) : List Char :=
  (newline? cs).getD cs

/-- A string on one line. -/
def lineText? : Reader String
  | c :: rest =>
      if c = '"' || c = '\'' then (line? c 0 rest).map fun (text, after) => (String.ofList text, after)
      else none
  | [] => none

/-- A string of either form. -/
def text? : Reader String
  | '"' :: '"' :: '"' :: rest =>
      (lines? '"' 0 (dropNewline rest)).map fun (text, after) => (String.ofList text, after)
  | '\'' :: '\'' :: '\'' :: rest =>
      (lines? '\'' 0 (dropNewline rest)).map fun (text, after) => (String.ofList text, after)
  | cs => lineText? cs

end StyleSense.Toml
