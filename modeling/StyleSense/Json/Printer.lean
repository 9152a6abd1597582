/-
# Writing JSON text

Strings are written as they are, except that quotes, backslashes and control
characters are escaped. A number that no double text can show is written as
`null`.
-/

import StyleSense.Json.Basic
import StyleSense.Decimal.Notation

namespace StyleSense.Json

open StyleSense.Decimal

/-- A character inside a JSON string. -/
def escapeChar (c : Char) : List Char :=
  match c with
  | '"' => ['\\', '"']
  | '\\' => ['\\', '\\']
  | '\n' => ['\\', 'n']
  | '\r' => ['\\', 'r']
  | '\t' => ['\\', 't']
  | '\x08' => ['\\', 'b']
  | '\x0c' => ['\\', 'f']
  | c =>
      if c.toNat < 0x20 then
        let digits := Nat.toDigits 16 c.toNat
        ['\\', 'u'] ++ List.replicate (4 - digits.length) '0' ++ digits
      else [c]

/-- A quoted string. -/
def quote (s : String) : String :=
  String.ofList ('"' :: (s.toList.flatMap escapeChar ++ ['"']))

/-- The text of a double, which shows that it is no integer. -/
def realText (x : Float) : String :=
  match Double.ofFloat x with
  | .finite negative mantissa exponent =>
      let text :=
        if mantissa = 0 then "0.0" else dataLayout.write (shortestDigits mantissa exponent)
      if negative then "-" ++ text else text
  | _ => "null"

/-- The text of a number. -/
def numberText : JsonNumber → String
  | .integer value => toString value
  | .real value => realText value

/-- Strings joined by a separator. -/
def joinWith (sep : String) : List String → String
  | [] => ""
  | first :: rest => rest.foldl (fun text next => text ++ sep ++ next) first

mutual
/-- The text of a value on one line, without blanks. -/
def compact : Json → String
  | null => "null"
  | bool value => if value then "true" else "false"
  | number value => numberText value
  | string value => quote value
  | array items => "[" ++ joinWith "," (compactItems items) ++ "]"
  | object fields => "\x7b" ++ joinWith "," (compactFields fields) ++ "\x7d"
  | unreadable => "null"

/-- The texts of items. -/
def compactItems : List Json → List String
  | [] => []
  | item :: rest => compact item :: compactItems rest

/-- The texts of fields. -/
def compactFields : List (String × Json) → List String
  | [] => []
  | (key, value) :: rest => (quote key ++ ":" ++ compact value) :: compactFields rest
end

/-- A line break and the indent of a nesting level. -/
def newLine (level : Nat) : String :=
  "\n" ++ String.ofList (List.replicate (2 * level) ' ')

/-- Parts of a bracketed value, each on a line of its own; brackets with
nothing between them stay together. -/
def block (opening closing : String) (level : Nat) (parts : List String) : String :=
  if parts.isEmpty then opening ++ closing
  else
    opening ++ newLine (level + 1) ++ joinWith ("," ++ newLine (level + 1)) parts
      ++ newLine level ++ closing

mutual
/-- The text of a value over several lines, two blanks per level. -/
def pretty (level : Nat) : Json → String
  | array items => block "[" "]" level (prettyItems (level + 1) items)
  | object fields => block "\x7b" "\x7d" level (prettyFields (level + 1) fields)
  | value => compact value

/-- The texts of items. -/
def prettyItems (level : Nat) : List Json → List String
  | [] => []
  | item :: rest => pretty level item :: prettyItems level rest

/-- The texts of fields. -/
def prettyFields (level : Nat) : List (String × Json) → List String
  | [] => []
  | (key, value) :: rest => (quote key ++ ": " ++ pretty level value) :: prettyFields level rest
end

end StyleSense.Json
