/-
# TOML numbers, truth values and dates

Values without quotes are one word each, but for a date and a time with a blank
between them. Digits may be grouped by single underscores. Dates must be on the
calendar; they are kept as their usual text.
-/

import StyleSense.Decimal.Reader
import StyleSense.Json.Basic
import StyleSense.Toml.Text

namespace StyleSense.Toml

open StyleSense.Text StyleSense.Decimal

/-- Digits of a radix without the underscores that group them. An underscore
stands between two digits. -/
def ungroup? (radix : Nat) (afterDigit : Bool) : List Char → Option (List Char)
  | [] => if afterDigit then some [] else none
  | c :: rest =>
      if c = '_' then if afterDigit then ungroup? radix false rest else none
      else if (digitValue? radix c).isSome then (ungroup? radix true rest).map (c :: ·)
      else none

/-- Digits of a whole number, grouped or not, without a leading zero. -/
def wholeDigits? (cs : List Char) : Option (List Char) :=
  (ungroup? 10 false cs).filter fun digits => digits.length = 1 || digits.head? ≠ some '0'

/-- A whole number of 64 bits. -/
def bounded? (n : Int) : Option Int :=
  if -9223372036854775808 ≤ n && n ≤ 9223372036854775807 then some n else none

/-- A sign and what follows it. -/
def splitSign : List Char → Bool × List Char
  | '-' :: rest => (true, rest)
  | '+' :: rest => (false, rest)
  | cs => (false, cs)

/-- An integer: decimal with an optional sign, or in a marked radix. -/
def integer? : List Char → Option Int
  | '0' :: 'x' :: rest => marked 16 rest
  | '0' :: 'o' :: rest => marked 8 rest
  | '0' :: 'b' :: rest => marked 2 rest
  | cs => do
      let (negative, rest) := splitSign cs
      let n ← (wholeDigits? rest).bind (readDigits? 10)
      bounded? (if negative then -(n : Int) else n)
where
  /-- Digits of a radix. -/
  marked (radix : Nat) (cs : List Char) : Option Int :=
    ((ungroup? radix false cs).bind (readDigits? radix)).bind fun n => bounded? n

/-- Digits behind a sign, which may be left out. -/
def exponent? (cs : List Char) : Option (List Char) :=
  match cs with
  | '-' :: rest => (ungroup? 10 false rest).map ('-' :: ·)
  | '+' :: rest => ungroup? 10 false rest
  | _ => ungroup? 10 false cs

/-- A number with a fraction, an exponent or both, as plain decimal text. -/
def decimal? (cs : List Char) : Option (List Char) := do
  let isMark (c : Char) : Bool := c = 'e' || c = 'E'
  let mantissa := cs.takeWhile (!isMark ·)
  let exponent ← match cs.dropWhile (!isMark ·) with
    | [] => some []
    | _ :: rest => (exponent? rest).map ('e' :: ·)
  let whole ← wholeDigits? (mantissa.takeWhile (· ≠ '.'))
  match mantissa.dropWhile (· ≠ '.') with
  | [] => if exponent.isEmpty then none else some (whole ++ exponent)
  | _ :: rest => do
      let fraction ← ungroup? 10 false rest
      some (whole ++ '.' :: fraction ++ exponent)

/-- A real number, an infinity, or the word for no number. A positive number
beyond the doubles is none. -/
def real? (cs : List Char) : Option Float :=
  let (negative, rest) := splitSign cs
  let sign (x : Float) := if negative then -x else x
  match String.ofList rest with
  | "inf" => some (sign (1.0 / 0.0))
  | "nan" => some (sign (0.0 / 0.0))
  | _ => do
      let x ← (decimal? rest).bind readDecimal?
      if !negative && x == 1.0 / 0.0 then none else some (sign x)

/-- A number of exactly `count` digits within bounds, with its text. -/
def fixed? (count low high : Nat) (cs : List Char) : Option (Nat × List Char × List Char) :=
  let digits := cs.take count
  if digits.length = count && digits.all isDigit then
    let n := digitsToNat digits
    if low ≤ n && n ≤ high then some (n, digits, cs.drop count) else none
  else none

/-- What follows a character. -/
def after? (c : Char) : List Char → Option (List Char)
  | d :: rest => if c = d then some rest else none
  | [] => none

/-- The days of a month. -/
def daysIn (year month : Nat) : Nat :=
  let leap := year % 4 = 0 && (year % 100 ≠ 0 || year % 400 = 0)
  if month = 2 then if leap then 29 else 28
  else if month = 4 || month = 6 || month = 9 || month = 11 then 30
  else 31

/-- A date: year, month and day. -/
def date? : Reader (List Char) := fun cs => do
  let (year, y, cs) ← fixed? 4 0 9999 cs
  let cs ← after? '-' cs
  let (month, m, cs) ← fixed? 2 1 12 cs
  let cs ← after? '-' cs
  let (_, d, cs) ← fixed? 2 1 (daysIn year month) cs
  some (y ++ '-' :: m ++ '-' :: d, cs)

/-- The fraction of a second, to nine digits and without zeros at its end. -/
def fraction? : Reader (List Char)
  | '.' :: cs =>
      let (digits, rest) := spanDigits cs
      if digits.isEmpty then none
      else
        let kept := ((digits.take 9).reverse.dropWhile (· = '0')).reverse
        some (if kept.isEmpty then [] else '.' :: kept, rest)
  | cs => some ([], cs)

/-- A time: hour, minute, second and perhaps a fraction. The last minute of a
day may have a leap second. -/
def time? : Reader (List Char) := fun cs => do
  let (_, h, cs) ← fixed? 2 0 23 cs
  let cs ← after? ':' cs
  let (_, m, cs) ← fixed? 2 0 59 cs
  let cs ← after? ':' cs
  let (_, s, cs) ← fixed? 2 0 60 cs
  let (f, cs) ← fraction? cs
  some (h ++ ':' :: m ++ ':' :: s ++ f, cs)

/-- How far a time is from universal time. -/
def offset? : Reader (List Char)
  | [] => some ([], [])
  | c :: cs =>
      if c = 'Z' || c = 'z' then some (['Z'], cs)
      else if c = '+' || c = '-' then do
        let (hours, h, cs) ← fixed? 2 0 23 cs
        let cs ← after? ':' cs
        let (minutes, m, cs) ← fixed? 2 0 59 cs
        let sign := if hours = 0 && minutes = 0 then '+' else c
        some (sign :: h ++ ':' :: m, cs)
      else none

/-- A date, a time, or a date with a time and perhaps its offset. -/
def moment? (cs : List Char) : Option (List Char) :=
  match date? cs with
  | some (date, []) => some date
  | some (date, mark :: rest) =>
      if mark = 'T' || mark = 't' || mark = ' ' then do
        let (time, rest) ← time? rest
        let (offset, rest) ← offset? rest
        if rest.isEmpty then some (date ++ 'T' :: time ++ offset) else none
      else none
  | none => do
      let (time, rest) ← time? cs
      if rest.isEmpty then some time else none

/-- The one name in the table that stands for a date. -/
def dateName : String := "$__toml_private_datetime"

/-- Characters of words. -/
def isWordChar (c : Char) : Bool :=
  isAlphanumeric c || c = '+' || c = '-' || c = '_' || c = '.' || c = ':'

/-- The word at the front, with a time that follows a date after one blank. -/
def word (cs : List Char) : List Char × List Char :=
  let first := cs.takeWhile isWordChar
  let rest := cs.dropWhile isWordChar
  match date? first, rest with
  | some (_, []), ' ' :: d :: after =>
      if isDigit d then
        (first ++ ' ' :: (d :: after).takeWhile isWordChar, (d :: after).dropWhile isWordChar)
      else (first, rest)
  | _, _ => (first, rest)

/-- The value of a word. -/
def wordValue? (cs : List Char) : Option Json :=
  match String.ofList cs with
  | "true" => some (.bool true)
  | "false" => some (.bool false)
  | _ =>
      match moment? cs, integer? cs, real? cs with
      | some text, _, _ => some (.object [(dateName, .string (String.ofList text))])
      | none, some n, _ => some (.number (.integer n))
      | none, none, some x => some (.number (.real x))
      | none, none, none => none

/-- A value without parts. -/
def single? : Reader Json := fun cs =>
  match cs with
  | '"' :: _ | '\'' :: _ => (text? cs).map fun (text, rest) => (.string text, rest)
  | _ =>
      let (first, rest) := word cs
      (wordValue? first).map (·, rest)

end StyleSense.Toml
