/-
# Reading TOML

A document is a row of lines: pairs of a key and a value, and headers that say
which table the pairs after them belong to. It is read as a JSON object. Arrays
may run over several lines, inline tables may not. Values and keys nest no
deeper than a fixed limit.
-/

import StyleSense.Toml.Scalar
import StyleSense.Toml.Table

namespace StyleSense.Toml

open StyleSense.Text

/-- How deep arrays and inline tables may nest, and how many parts a key may
have. -/
def maxNesting : Nat := 79

/-- Blanks left out. -/
def skipSpace (cs : List Char) : List Char :=
  cs.dropWhile isSpace

/-- Blanks, line breaks and comments left out. `inComment` says whether the
text starts within a comment. -/
def skipGap (inComment : Bool) : List Char → List Char
  | '\n' :: rest => skipGap false rest
  | '\r' :: '\n' :: rest => skipGap false rest
  | c :: rest =>
      if inComment then if isPlain c then skipGap true rest else c :: rest
      else if isSpace c then skipGap false rest
      else if c = '#' then skipGap true rest
      else c :: rest
  | [] => []

/-- What follows the end of a line, where nothing but a comment may stand. -/
def lineEnd? (cs : List Char) : Option (List Char) :=
  let rest := match skipSpace cs with
    | '#' :: rest => rest.dropWhile isPlain
    | rest => rest
  if rest.isEmpty then some [] else newline? rest

/-- Characters of keys without quotes. -/
def isKeyChar (c : Char) : Bool :=
  isAlphanumeric c || c = '-' || c = '_'

/-- One part of a key, with blanks around it. -/
def keyPart? : Reader String := fun cs =>
  let cs := skipSpace cs
  let key := cs.takeWhile isKeyChar
  if key.isEmpty then (lineText? cs).map fun (text, rest) => (text, skipSpace rest)
  else some (String.ofList key, skipSpace (cs.dropWhile isKeyChar))

/-- A key: the tables on the way and the name itself. -/
structure Key where
  path : List String
  name : String

/-- At most `limit` parts with points between them. -/
def key? : Nat → Reader Key
  | 0, _ => none
  | limit + 1, cs => do
      let (part, cs) ← keyPart? cs
      match cs with
      | '.' :: rest => do
          let (key, rest) ← key? limit rest
          some (⟨part :: key.path, key.name⟩, rest)
      | _ => some (⟨[], part⟩, cs)

/-- A key and a value. -/
structure Pair where
  key : Key
  value : Json

/-- A key, an equals sign and a value. -/
def pair? (value : Reader Json) : Reader Pair := fun cs => do
  let (key, cs) ← key? maxNesting cs
  let cs ← after? '=' cs
  let (value, cs) ← value (skipSpace cs)
  some (⟨key, value⟩, cs)

/-- The items of an array after its bracket or a comma, at most `limit`. -/
def items? (value : Reader Json) : Nat → Reader (List Json)
  | 0, _ => none
  | limit + 1, cs =>
      match skipGap false cs with
      | ']' :: rest => some ([], rest)
      | cs => do
          let (item, cs) ← value cs
          match skipGap false cs with
          | ']' :: rest => some ([item], rest)
          | ',' :: rest => do
              let (items, rest) ← items? value limit rest
              some (item :: items, rest)
          | _ => none

/-- The pairs of an inline table up to its brace, at most `limit`. -/
def pairs? (value : Reader Json) : Nat → Reader (List Pair)
  | 0, _ => none
  | limit + 1, cs => do
      let (pair, cs) ← pair? value cs
      match skipSpace cs with
      | '\x7d' :: rest => some ([pair], rest)
      | ',' :: rest => do
          let (pairs, rest) ← pairs? value limit rest
          some (pair :: pairs, rest)
      | _ => none

/-- The table of some pairs. -/
def tableOf? (pairs : List Pair) : Option Json :=
  (pairs.foldlM (fun entries pair =>
    Entries.addPair? pair.key.path pair.key.name pair.value entries) []).map fun entries =>
      .object (fieldsOf entries)

/-- A value that nests at most `depth` arrays and inline tables, each with at
most `limit` parts. -/
def value? (limit : Nat) : Nat → Reader Json
  | 0, cs => single? cs
  | depth + 1, cs =>
      match cs with
      | '[' :: rest => do
          let (items, rest) ← items? (value? limit depth) limit rest
          some (.array items, rest)
      | '\x7b' :: rest =>
          match skipSpace rest with
          | '\x7d' :: rest => some (.object [], rest)
          | _ => do
              let (pairs, rest) ← pairs? (value? limit depth) limit rest
              let table ← tableOf? pairs
              some (table, rest)
      | _ => single? cs

/-- A document while it is read: its tables, and where pairs go. -/
structure Draft where
  root : Entries
  here : List String

/-- Adds a pair. -/
def Draft.addPair? (d : Draft) (pair : Pair) : Option Draft :=
  (d.root.addPairAt? d.here pair.key.path pair.key.name pair.value).map fun root =>
    { d with root }

/-- Begins a table. -/
def Draft.addTable? (d : Draft) (key : Key) : Option Draft :=
  (d.root.addTable? key.path key.name).map fun root => ⟨root, key.path ++ [key.name]⟩

/-- Begins a table of a row. -/
def Draft.addRow? (d : Draft) (key : Key) : Option Draft :=
  (d.root.addRow? key.path key.name).map fun root => ⟨root, key.path ++ [key.name]⟩

/-- Reads one line, of which blanks are left out already. -/
def line (limit : Nat) (d : Draft) (cs : List Char) : Option (Draft × List Char) :=
  match cs with
  | '\n' :: _ | '\r' :: _ | '#' :: _ => do
      let rest ← lineEnd? cs
      some (d, rest)
  | '[' :: '[' :: rest => do
      let (key, rest) ← key? maxNesting rest
      let rest ← (after? ']' rest).bind (after? ']')
      let rest ← lineEnd? rest
      let d ← d.addRow? key
      some (d, rest)
  | '[' :: rest => do
      let (key, rest) ← key? maxNesting rest
      let rest ← after? ']' rest
      let rest ← lineEnd? rest
      let d ← d.addTable? key
      some (d, rest)
  | _ => do
      let (pair, rest) ← pair? (value? limit maxNesting) cs
      let rest ← lineEnd? rest
      let d ← d.addPair? pair
      some (d, rest)

/-- Reads at most `limit` lines. -/
def lines (limit : Nat) : Nat → Draft → List Char → Option Draft
  | 0, _, _ => none
  | left + 1, d, cs =>
      match skipSpace cs with
      | [] => some d
      | cs => do
          let (d, rest) ← line limit d cs
          lines limit left d rest

/-- A text without the byte order mark at its start. -/
def dropMark : List Char → List Char
  | c :: rest => if c.toNat = 0xFEFF then rest else c :: rest
  | [] => []

/-- The tables of a document. -/
def ofText? (text : String) : Option Json :=
  let cs := dropMark text.toList
  (lines (cs.length + 1) (cs.length + 1) ⟨[], []⟩ cs).map fun d => .object (fieldsOf d.root)

end StyleSense.Toml
