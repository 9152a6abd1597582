/-
# Measures of text

A text is a list of characters. Two units count it: bytes of its UTF-8 form,
which spans use, and UTF-16 code units, which editor positions use. A byte
offset names a place only when it falls between two characters, so cutting at
a byte offset may fail.
-/

namespace StyleSense.Text

/-- UTF-16 code units of one character: two beyond the basic plane. -/
def unitWidth (c : Char) : Nat :=
  if c.toNat < 0x10000 then 1 else 2

/-- The sum of a measure over a list. -/
def total {α : Type} (measure : α → Nat) (xs : List α) : Nat :=
  xs.foldr (fun x sum => measure x + sum) 0

/-- Bytes of the UTF-8 form. -/
def byteLength (cs : List Char) : Nat :=
  total Char.utf8Size cs

/-- Code units of the UTF-16 form. -/
def unitLength (cs : List Char) : Nat :=
  total unitWidth cs

/-- The UTF-16 form of one character: itself, or a surrogate pair. -/
def unitsOf (c : Char) : List Nat :=
  if c.toNat < 0x10000 then [c.toNat]
  else
    let rest := c.toNat - 0x10000
    [0xD800 + rest / 0x400, 0xDC00 + rest % 0x400]

/-- The UTF-16 form of a text. -/
def units (cs : List Char) : List Nat :=
  cs.flatMap unitsOf

/-- The text after `n` bytes; none inside a character or past the end. -/
def dropBytes? : Nat → List Char → Option (List Char)
  | 0, cs => some cs
  | _ + 1, [] => none
  | n + 1, c :: cs =>
      if c.utf8Size ≤ n + 1 then dropBytes? (n + 1 - c.utf8Size) cs else none

/-- The first `n` bytes; none when they end inside a character or past the
end. -/
def takeBytes? : Nat → List Char → Option (List Char)
  | 0, _ => some []
  | _ + 1, [] => none
  | n + 1, c :: cs =>
      if c.utf8Size ≤ n + 1 then (takeBytes? (n + 1 - c.utf8Size) cs).map (c :: ·) else none

/-- The text from byte `start` up to byte `stop`; none when either is not a
character boundary or they are out of order. -/
def slice? (cs : List Char) (start stop : Nat) : Option (List Char) :=
  if stop < start then none
  else (dropBytes? start cs).bind (takeBytes? (stop - start))

/-- Why a text cannot be cut. -/
inductive CutError
  /-- A cut would fall inside a character or past the end. -/
  | noBoundary
  deriving DecidableEq, Repr

/-- The text from byte `start` up to byte `stop`, where both must be character
boundaries in order. -/
def slice (cs : List Char) (start stop : Nat) : Except CutError (List Char) :=
  match slice? cs start stop with
  | some part => .ok part
  | none => .error .noBoundary

/-- Whether byte `n` falls between two characters, or at an end. -/
def isBoundary (cs : List Char) (n : Nat) : Bool :=
  (dropBytes? n cs).isSome

/-- The byte offset of the first occurrence of `word`; an empty word occurs at
once. -/
def findBytes? (word : List Char) : List Char → Option Nat
  | [] => if word.isEmpty then some 0 else none
  | c :: cs =>
      if word.isPrefixOf (c :: cs) then some 0
      else (findBytes? word cs).map (c.utf8Size + ·)

/-- The byte offset of the last occurrence of `word`; an empty word occurs at the
end. -/
def findLastBytes? (word : List Char) : List Char → Option Nat
  | [] => if word.isEmpty then some 0 else none
  | c :: cs =>
      match findLastBytes? word cs with
      | some found => some (c.utf8Size + found)
      | none => if word.isPrefixOf (c :: cs) then some 0 else none

/-- The text around the first occurrence of `sep`. -/
def splitOnce? (sep : List Char) : List Char → Option (List Char × List Char)
  | [] => if sep.isEmpty then some ([], []) else none
  | c :: cs =>
      if sep.isPrefixOf (c :: cs) then some ([], (c :: cs).drop sep.length)
      else (splitOnce? sep cs).map fun (before, after) => (c :: before, after)

/-- Every occurrence of `word` replaced, from the left and without overlap.
Cutting a word out takes at least one character, so an empty word is left
alone. -/
def replaceAll (word replacement : List Char) (cs : List Char) : List Char :=
  go cs 0
where
  /-- The next `skip` characters belong to an occurrence that is already replaced. -/
  go : List Char → Nat → List Char
    | [], _ => []
    | _ :: rest, skip + 1 => go rest skip
    | c :: rest, 0 =>
        if !word.isEmpty && word.isPrefixOf (c :: rest) then
          replacement ++ go rest (word.length - 1)
        else c :: go rest 0

/-- Whether `cs` ends in `tail`. -/
def endsWith (cs tail : List Char) : Bool :=
  tail.isSuffixOf cs

/-- Order of two texts by their UTF-16 forms. -/
def compareUnits (a b : List Char) : Ordering :=
  compareLex (units a) (units b)
where
  /-- Lexicographic order of two unit lists; a proper start comes first. -/
  compareLex : List Nat → List Nat → Ordering
    | [], [] => .eq
    | [], _ :: _ => .lt
    | _ :: _, [] => .gt
    | x :: xs, y :: ys => (compare x y).then (compareLex xs ys)

/-- Order of two texts by code point, which is also the order of their UTF-8
forms. -/
def compareCodePoints : List Char → List Char → Ordering
  | [], [] => .eq
  | [], _ :: _ => .lt
  | _ :: _, [] => .gt
  | x :: xs, y :: ys => (compare x.toNat y.toNat).then (compareCodePoints xs ys)

/-- Decimal digits. -/
def isDigit (c : Char) : Bool :=
  '0' ≤ c && c ≤ '9'

/-- ASCII letters. -/
def isLetter (c : Char) : Bool :=
  ('a' ≤ c && c ≤ 'z') || ('A' ≤ c && c ≤ 'Z')

/-- ASCII letters and digits. -/
def isAlphanumeric (c : Char) : Bool :=
  isLetter c || isDigit c

/-- Hexadecimal digits of either case. -/
def isHexDigit (c : Char) : Bool :=
  isDigit c || ('a' ≤ c && c ≤ 'f') || ('A' ≤ c && c ≤ 'F')

/-- The value of a digit in radices up to 36; letters of either case. -/
def digitValue? (radix : Nat) (c : Char) : Option Nat :=
  let value :=
    if isDigit c then c.toNat - 48
    else if 'a' ≤ c && c ≤ 'z' then c.toNat - 87
    else if 'A' ≤ c && c ≤ 'Z' then c.toNat - 55
    else radix
  if value < radix then some value else none

/-- The number a run of digits writes; none for an empty run or a character
that is no digit of the radix. -/
def readDigits? (radix : Nat) : List Char → Option Nat
  | [] => none
  | c :: cs => (c :: cs).foldl
      (fun sum d => sum.bind fun n => (digitValue? radix d).map (n * radix + ·)) (some 0)

/-- A natural number below `limit` with an optional plus sign, the common form
of indices and counts. -/
def readBounded? (radix limit : Nat) : List Char → Option Nat
  | '+' :: cs => (readDigits? radix cs).filter (· < limit)
  | cs => (readDigits? radix cs).filter (· < limit)

/-- ASCII letters lowered; every other character is kept. -/
def lowerAscii (cs : List Char) : List Char :=
  cs.map Char.toLower

end StyleSense.Text
