/-
# Grapheme clusters

Cuts a text into extended grapheme clusters, the characters that a reader
sees. Whether a cluster ends before a character depends on that character and
on what the cluster holds so far, never on what came before the cluster, so
cutting can start anew at every cluster.
-/

import StyleSense.Text.ClusterTable

namespace StyleSense.Text

/-- What a character does to the clusters around it. -/
inductive ClusterClass
  | carriageReturn
  | lineFeed
  | control
  | extend
  | joiner
  | regional
  | leadMark
  | spacingMark
  /-- Hangul: leading consonant, vowel, trailing consonant, and syllables that
  end in a vowel or in a consonant. -/
  | leading
  | vowel
  | trailing
  | openSyllable
  | closedSyllable
  | other
  deriving DecidableEq, Repr

/-- Whether a code point lies in one of the ranges. -/
def inRanges (ranges : List (Nat × Nat)) (n : Nat) : Bool :=
  ranges.any fun (first, last) => first ≤ n && n ≤ last

/-- The class of a character. Syllables stand in blocks of twenty-eight, the
first of which has no trailing consonant. -/
def clusterClass (c : Char) : ClusterClass :=
  let n := c.toNat
  if n = 0x0D then .carriageReturn
  else if n = 0x0A then .lineFeed
  else if 0x20 ≤ n && n < 0x7F then .other
  else if n = 0x200D then .joiner
  else if 0x1F1E6 ≤ n && n ≤ 0x1F1FF then .regional
  else if 0xAC00 ≤ n && n ≤ 0xD7A3 then
    if (n - 0xAC00) % 28 = 0 then .openSyllable else .closedSyllable
  else if inRanges controlRanges n then .control
  else if inRanges extendRanges n then .extend
  else if inRanges spacingMarkRanges n then .spacingMark
  else if inRanges prependRanges n then .leadMark
  else if inRanges leadingRanges n then .leading
  else if inRanges vowelRanges n then .vowel
  else if inRanges trailingRanges n then .trailing
  else .other

/-- Pictographic symbols. -/
def isPictographic (c : Char) : Bool :=
  inRanges pictographicRanges c.toNat

/-- Consonants that form conjuncts. -/
def isConjunctConsonant (c : Char) : Bool :=
  inRanges conjunctConsonantRanges c.toNat

/-- Marks that join two consonants. -/
def isConjunctLinker (c : Char) : Bool :=
  inRanges conjunctLinkerRanges c.toNat

/-- How far the end of a cluster has come in a sequence of three steps. -/
inductive Progress
  | none
  | begun
  | joined
  deriving DecidableEq, Repr

/-- What matters of a cluster so far. -/
structure ClusterState where
  last : ClusterClass
  /-- The cluster ends in an odd number of regional indicators. -/
  oddRegional : Bool
  /-- A pictograph with its extensions, then a joiner. -/
  pictograph : Progress
  /-- A consonant with its marks, then a linker among them. -/
  conjunct : Progress
  deriving DecidableEq, Repr

namespace ClusterState

/-- A cluster of one character. -/
def start (c : Char) : ClusterState :=
  { last := clusterClass c
    oddRegional := clusterClass c = .regional
    pictograph := if isPictographic c then .begun else .none
    conjunct := if isConjunctConsonant c then .begun else .none }

/-- Whether the cluster ends before this character. -/
def endsBefore (s : ClusterState) (c : Char) : Bool :=
  match s.last, clusterClass c with
  | .carriageReturn, .lineFeed => false
  | .carriageReturn, _ | .lineFeed, _ | .control, _ => true
  | _, .carriageReturn | _, .lineFeed | _, .control => true
  | .leading, .leading | .leading, .vowel | .leading, .openSyllable | .leading, .closedSyllable =>
      false
  | .openSyllable, .vowel | .vowel, .vowel | .openSyllable, .trailing | .vowel, .trailing => false
  | .closedSyllable, .trailing | .trailing, .trailing => false
  | _, .extend | _, .joiner | _, .spacingMark => false
  | .leadMark, _ => false
  | _, next =>
      !((s.conjunct = .joined && isConjunctConsonant c) ||
        (s.pictograph = .joined && s.last = .joiner && isPictographic c) ||
        (s.oddRegional && next = .regional))

/-- The cluster with another character. -/
def push (s : ClusterState) (c : Char) : ClusterState :=
  let kind := clusterClass c
  { last := kind
    oddRegional := kind = .regional && !s.oddRegional
    pictograph :=
      if isPictographic c then .begun
      else if s.pictograph = .begun && kind = .extend then .begun
      else if s.pictograph = .begun && kind = .joiner then .joined
      else .none
    conjunct :=
      if isConjunctConsonant c then .begun
      else if s.conjunct = .none then .none
      else if isConjunctLinker c then .joined
      else if (kind = .extend && c.toNat ≠ 0x200C) || kind = .joiner then s.conjunct
      else .none }

end ClusterState

/-- The rest of a cluster, its characters so far last first, and the clusters
after it. -/
def clustersFrom (s : ClusterState) (current : List Char) : List Char → List (List Char)
  | [] => [current.reverse]
  | c :: rest =>
      if s.endsBefore c then current.reverse :: clustersFrom (.start c) [c] rest
      else clustersFrom (s.push c) (c :: current) rest

/-- The clusters of a text. -/
def clusters : List Char → List (List Char)
  | [] => []
  | c :: rest => clustersFrom (.start c) [c] rest

end StyleSense.Text
