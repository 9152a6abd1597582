/-
# Reading JSON text

The text is cut into tokens character by character, and the tokens drive a
machine with a stack of unfinished arrays and objects. Both are folds, so the
reader is total without a bound on nesting. Nothing but blanks may surround the
value, and a byte order mark is no blank.
-/

import StyleSense.Json.Number

namespace StyleSense.Json

open StyleSense.Text

/-- Tokens of JSON text. A string or number that stands for nothing has no
value. -/
inductive Token
  | openArray
  | closeArray
  | openObject
  | closeObject
  | comma
  | colon
  | word (letters : List Char)
  | string (value : Option String)
  | number (value : Option JsonNumber)

/-- A string being read. -/
structure OpenString where
  /-- The characters so far, the last first. -/
  chars : List Char
  /-- No lone surrogate so far. -/
  sound : Bool
  /-- A leading surrogate that waits for its other half. -/
  pending : Option Nat

/-- What the characters so far leave unfinished. -/
inductive Partial
  | idle
  | word (letters : List Char)
  | number (text : List Char)
  | string (s : OpenString)
  | escape (s : OpenString)
  | unicode (s : OpenString) (value count : Nat)

namespace OpenString

/-- A character or escape that is no half of a pair ends a waiting half. -/
def push (s : OpenString) (c : Char) : OpenString :=
  ⟨c :: s.chars, s.sound && s.pending.isNone, none⟩

/-- A code unit given by its number. -/
def pushUnit (s : OpenString) (unit : Nat) : OpenString :=
  if 0xD800 ≤ unit && unit < 0xDC00 then
    ⟨s.chars, s.sound && s.pending.isNone, some unit⟩
  else if 0xDC00 ≤ unit && unit < 0xE000 then
    match s.pending with
    | some high =>
        ⟨Char.ofNat (0x10000 + (high - 0xD800) * 0x400 + (unit - 0xDC00)) :: s.chars, s.sound, none⟩
    | none => ⟨s.chars, false, none⟩
  else s.push (Char.ofNat unit)

/-- The finished string. -/
def close (s : OpenString) : Option String :=
  if s.sound && s.pending.isNone then some (String.ofList s.chars.reverse) else none

end OpenString

/-- The character a short escape stands for. -/
def shortEscape? : Char → Option Char
  | '"' => some '"'
  | '\\' => some '\\'
  | '/' => some '/'
  | 'b' => some '\x08'
  | 'f' => some '\x0c'
  | 'n' => some '\n'
  | 'r' => some '\r'
  | 't' => some '\t'
  | _ => none

/-- Blanks between tokens. -/
def isSpace (c : Char) : Bool :=
  c = ' ' || c = '\n' || c = '\r' || c = '\t'

/-- Characters that may belong to a number. -/
def isNumberChar (c : Char) : Bool :=
  isDigit c || c = '-' || c = '+' || c = '.' || c = 'e' || c = 'E'

/-- The lexer's state: tokens so far, the last first, and what is
unfinished. -/
abbrev Lexed := List Token × Partial

/-- Finishes a word or number. -/
def finish? : Lexed → Option (List Token)
  | (tokens, .idle) => some tokens
  | (tokens, .word letters) => some (.word letters.reverse :: tokens)
  | (tokens, .number text) =>
      (JsonNumber.partsOf? text.reverse).map fun p => .number (JsonNumber.ofParts? p) :: tokens
  | _ => none

/-- A character outside strings, words and numbers. -/
def start? (tokens : List Token) (c : Char) : Option Lexed :=
  if isSpace c then some (tokens, .idle)
  else if c = '[' then some (.openArray :: tokens, .idle)
  else if c = ']' then some (.closeArray :: tokens, .idle)
  else if c = '\x7b' then some (.openObject :: tokens, .idle)
  else if c = '\x7d' then some (.closeObject :: tokens, .idle)
  else if c = ',' then some (.comma :: tokens, .idle)
  else if c = ':' then some (.colon :: tokens, .idle)
  else if c = '"' then some (tokens, .string ⟨[], true, none⟩)
  else if isDigit c || c = '-' then some (tokens, .number [c])
  else if isLetter c then some (tokens, .word [c])
  else none

/-- One character. -/
def step? : Lexed → Char → Option Lexed
  | (tokens, .idle), c => start? tokens c
  | (tokens, .word letters), c =>
      if isLetter c then some (tokens, .word (c :: letters))
      else (finish? (tokens, .word letters)).bind (start? · c)
  | (tokens, .number text), c =>
      if isNumberChar c then some (tokens, .number (c :: text))
      else (finish? (tokens, .number text)).bind (start? · c)
  | (tokens, .string s), c =>
      if c = '"' then some (.string s.close :: tokens, .idle)
      else if c = '\\' then some (tokens, .escape s)
      else if c.toNat < 0x20 then none
      else some (tokens, .string (s.push c))
  | (tokens, .escape s), c =>
      if c = 'u' then some (tokens, .unicode s 0 0)
      else (shortEscape? c).map fun d => (tokens, .string (s.push d))
  | (tokens, .unicode s value count), c =>
      (digitValue? 16 c).map fun d =>
        let next := value * 16 + d
        if count = 3 then (tokens, .string (s.pushUnit next))
        else (tokens, .unicode s next (count + 1))

/-- The tokens of a text. -/
def tokens? (cs : List Char) : Option (List Token) :=
  ((cs.foldlM step? ([], Partial.idle)).bind finish?).map List.reverse

/-- An unfinished array or object, its parts in reverse. -/
inductive Frame
  | array (items : List Json)
  /-- Here `sound` holds until a name stands for nothing; `key` is the name whose value is
  next. -/
  | object (fields : List (String × Json)) (sound : Bool) (key : String)

/-- What may come next. -/
inductive Expect
  | value
  | firstItem
  | firstKey
  | key
  | colon
  | separator
  deriving DecidableEq

/-- The machine: unfinished parts, innermost first; what may come next; and the
value once it is complete. -/
structure Machine where
  stack : List Frame
  expect : Expect
  result : Option Json

namespace Machine

/-- A value is complete: it goes into the innermost unfinished part. -/
def complete (value : Json) : List Frame → Machine
  | [] => ⟨[], .separator, some value⟩
  | .array items :: rest => ⟨.array (value :: items) :: rest, .separator, none⟩
  | .object fields sound key :: rest =>
      ⟨.object ((key, value) :: fields) sound key :: rest, .separator, none⟩

/-- Ends the innermost array. -/
def closeArray? : List Frame → Option Machine
  | .array items :: rest => some (complete (.array items.reverse) rest)
  | _ => none

/-- Ends the innermost object. -/
def closeObject? : List Frame → Option Machine
  | .object fields sound _ :: rest =>
      some (complete (if sound then .object fields.reverse else .unreadable) rest)
  | _ => none

/-- A name in the innermost object. -/
def name? (value : Option String) : List Frame → Option Machine
  | .object fields sound _ :: rest =>
      some ⟨.object fields (sound && value.isSome) (value.getD "") :: rest, .colon, none⟩
  | _ => none

/-- A token where a value may begin. -/
def begin? (stack : List Frame) : Token → Option Machine
  | .openArray => some ⟨.array [] :: stack, .firstItem, none⟩
  | .openObject => some ⟨.object [] true "" :: stack, .firstKey, none⟩
  | .string value => some (complete (value.elim .unreadable .string) stack)
  | .number value => some (complete (value.elim .unreadable .number) stack)
  | .word letters =>
      match String.ofList letters with
      | "null" => some (complete .null stack)
      | "true" => some (complete (.bool true) stack)
      | "false" => some (complete (.bool false) stack)
      | _ => none
  | _ => none

/-- A token between two parts. -/
def separate? : List Frame → Token → Option Machine
  | stack, .closeArray => closeArray? stack
  | stack, .closeObject => closeObject? stack
  | .array items :: rest, .comma => some ⟨.array items :: rest, .value, none⟩
  | .object fields sound key :: rest, .comma => some ⟨.object fields sound key :: rest, .key, none⟩
  | _, _ => none

/-- One token. -/
def step? (m : Machine) (t : Token) : Option Machine :=
  match m.expect, t with
  | .value, t => begin? m.stack t
  | .firstItem, .closeArray => closeArray? m.stack
  | .firstItem, t => begin? m.stack t
  | .firstKey, .closeObject => closeObject? m.stack
  | .firstKey, .string value => name? value m.stack
  | .key, .string value => name? value m.stack
  | .colon, .colon => some ⟨m.stack, .value, none⟩
  | .separator, t => separate? m.stack t
  | _, _ => none

end Machine

/-- The value a text writes. -/
def ofText? (text : String) : Option Json :=
  (tokens? text.toList).bind fun tokens =>
    (tokens.foldlM Machine.step? ⟨[], .value, none⟩).bind Machine.result

/-- The value a text writes, if all of it can be read. -/
def ofReadableText? (text : String) : Option Json :=
  (ofText? text).filter (readable maxDepth)

end StyleSense.Json
