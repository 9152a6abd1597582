/-
# What comes before the first token

Blanks and comments at the start of a text, given as a grammar apart from the
loop that skips them. A line comment ends before its line feed, and a block
comment at the first mark that closes it, so `/*/` is still open; one that is
never closed takes the rest of the text. A line that names an interpreter may
come first. The main statement says that the bytes of leading trivia are those
of the one start of the text that the grammar allows.
-/

import Mathlib.Data.List.DropRight
import StyleSense.Document
import StyleSense.Proofs.Text.Cuts

namespace StyleSense

open StyleSense.Text

/-- The mark that closes a block comment. -/
def closingMark : List Char :=
  ['*', '/']

/-- A text that goes on with blanks or a comment. -/
inductive StartsTrivia : List Char → Prop
  | blank {c : Char} (hc : isTrivia c = true) (rest : List Char) : StartsTrivia (c :: rest)
  | line (rest : List Char) : StartsTrivia ('/' :: '/' :: rest)
  | block (rest : List Char) : StartsTrivia ('/' :: '*' :: rest)

/-- The end of a line: a line feed, or the end of the text. -/
def EndsLine (rest : List Char) : Prop :=
  ∀ c, rest.head? = some c → c = '\n'

/-- Blanks and comments, with all that follows them. What follows starts with
neither, unless a block comment that is never closed has left nothing. -/
inductive Trivia : List Char → List Char → Prop
  | done {rest : List Char} (hrest : ¬StartsTrivia rest) : Trivia [] rest
  | blank {c : Char} {lead rest : List Char} (hc : isTrivia c = true) (h : Trivia lead rest) :
      Trivia (c :: lead) rest
  | line {body lead rest : List Char} (hbody : '\n' ∉ body) (hend : EndsLine (lead ++ rest))
      (h : Trivia lead rest) : Trivia ('/' :: '/' :: (body ++ lead)) rest
  | block {body lead rest : List Char} (hbody : ¬closingMark <:+: body) (h : Trivia lead rest) :
      Trivia ('/' :: '*' :: (body ++ '*' :: '/' :: lead)) rest
  | unclosed {body : List Char} (hbody : ¬closingMark <:+: body) :
      Trivia ('/' :: '*' :: body) []

/-- The line that names an interpreter, without its line feed, and all that
follows it; nothing where the text does not start with such a line. -/
inductive Interpreter : List Char → List Char → Prop
  | absent {rest : List Char} (h : ¬['#', '!'] <+: rest) : Interpreter [] rest
  | line {body rest : List Char} (hbody : '\n' ∉ body) (hend : EndsLine rest) :
      Interpreter ('#' :: '!' :: body) rest

/-- All that comes before the first token of a text, and the text from there
on. -/
inductive Leading : List Char → List Char → Prop
  | intro {line lead rest : List Char} (hline : Interpreter line (lead ++ rest))
      (htrivia : Trivia lead rest) : Leading (line ++ lead) rest

variable {after body cs lead line rest : List Char} {c : Char}

theorem fromLineFeed_append (hbody : '\n' ∉ body) (hend : EndsLine rest) :
    fromLineFeed (body ++ rest) = rest := by
  have hpass : ∀ c ∈ body, decide (c ≠ '\n') = true := by
    intro c hmem
    rw [decide_eq_true_eq]
    rintro rfl
    exact hbody hmem
  rw [fromLineFeed, List.dropWhile_append_of_pos hpass]
  cases rest with
  | nil => rfl
  | cons c rest =>
      rw [hend c rfl]
      rfl

theorem exists_fromLineFeed (cs : List Char) :
    ∃ body, cs = body ++ fromLineFeed cs ∧ '\n' ∉ body ∧ EndsLine (fromLineFeed cs) := by
  refine ⟨cs.takeWhile (· ≠ '\n'), List.takeWhile_append_dropWhile.symm, ?_, ?_⟩
  · intro hmem
    have := List.all_eq_true.1 List.all_takeWhile _ hmem
    simp at this
  · intro c hc
    have := List.head?_dropWhile_not (· ≠ '\n') cs
    rw [← fromLineFeed, hc] at this
    simpa using this

/-- The end of a block comment is the first mark that closes it. -/
theorem afterBlockComment?_eq_some_iff :
    afterBlockComment? cs = some after ↔
      ∃ body, cs = body ++ '*' :: '/' :: after ∧ ¬closingMark <:+: body := by
  constructor
  · intro h
    fun_induction afterBlockComment? cs with
    | case1 => cases h
    | case2 rest =>
        cases h
        exact ⟨[], rfl, by decide⟩
    | case3 c rest hopen ih =>
        obtain ⟨body, rfl, hbody⟩ := ih h
        refine ⟨c :: body, rfl, ?_⟩
        rw [List.infix_cons_iff, not_or]
        refine ⟨?_, hbody⟩
        rintro ⟨tail, htail⟩
        cases htail
        exact hopen _ rfl rfl
  · rintro ⟨body, rfl, hbody⟩
    induction body with
    | nil => rfl
    | cons c body ih =>
        rw [List.infix_cons_iff, not_or] at hbody
        rw [List.cons_append, afterBlockComment?, ih hbody.2]
        rintro tail rfl htail
        cases body with
        | nil => cases htail
        | cons d body =>
            cases htail
            exact hbody.1 ⟨body, rfl⟩

theorem afterBlockComment?_eq_none_iff :
    afterBlockComment? cs = none ↔ ¬closingMark <:+: cs := by
  constructor
  · intro h
    fun_induction afterBlockComment? cs with
    | case1 => decide
    | case2 rest => cases h
    | case3 c rest hopen ih =>
        rw [List.infix_cons_iff, not_or]
        refine ⟨?_, ih h⟩
        rintro ⟨tail, htail⟩
        cases htail
        exact hopen _ rfl rfl
  · intro h
    rw [Option.eq_none_iff_forall_ne_some]
    intro after hafter
    obtain ⟨body, rfl, -⟩ := afterBlockComment?_eq_some_iff.1 hafter
    exact h ⟨body, after, by simp [closingMark]⟩

theorem skipTrivia_of_line (h : cs.dropWhile isTrivia = '/' :: '/' :: rest) :
    skipTrivia cs = skipTrivia (fromLineFeed rest) := by
  rw [skipTrivia]
  split
  next other hother =>
    rw [h] at hother
    cases hother
    rfl
  next other hother =>
    rw [h] at hother
    cases hother
  next hline hblock => exact absurd h (hline rest)

theorem skipTrivia_of_block (h : cs.dropWhile isTrivia = '/' :: '*' :: rest) :
    skipTrivia cs = ((afterBlockComment? rest).map skipTrivia).getD [] := by
  rw [skipTrivia]
  split
  next other hother =>
    rw [h] at hother
    cases hother
  next other hother =>
    rw [h] at hother
    cases hother
    split
    next after hafter => simp only [hafter, Option.map_some, Option.getD_some]
    next hafter => simp only [hafter, Option.map_none, Option.getD_none]
  next hline hblock => exact absurd h (hblock rest)

theorem skipTrivia_of_token (hline : ∀ rest, cs.dropWhile isTrivia ≠ '/' :: '/' :: rest)
    (hblock : ∀ rest, cs.dropWhile isTrivia ≠ '/' :: '*' :: rest) :
    skipTrivia cs = cs.dropWhile isTrivia := by
  rw [skipTrivia]
  split
  next rest h => exact absurd h (hline rest)
  next rest h => exact absurd h (hblock rest)
  next => rfl

/-- Blanks in front make no difference. -/
theorem skipTrivia_dropWhile (cs : List Char) :
    skipTrivia (cs.dropWhile isTrivia) = skipTrivia cs := by
  have hsame : (cs.dropWhile isTrivia).dropWhile isTrivia = cs.dropWhile isTrivia :=
    List.dropWhile_idempotent _ _
  by_cases hline : ∃ rest, cs.dropWhile isTrivia = '/' :: '/' :: rest
  · obtain ⟨rest, hrest⟩ := hline
    rw [skipTrivia_of_line hrest, skipTrivia_of_line (hsame.trans hrest)]
  · by_cases hblock : ∃ rest, cs.dropWhile isTrivia = '/' :: '*' :: rest
    · obtain ⟨rest, hrest⟩ := hblock
      rw [skipTrivia_of_block hrest, skipTrivia_of_block (hsame.trans hrest)]
    · rw [not_exists] at hline hblock
      rw [skipTrivia_of_token hline hblock, skipTrivia_of_token (by rwa [hsame]) (by rwa [hsame]),
        hsame]

theorem skipTrivia_blank (hc : isTrivia c = true) (cs : List Char) :
    skipTrivia (c :: cs) = skipTrivia cs := by
  rw [← skipTrivia_dropWhile, List.dropWhile_cons_of_pos hc, skipTrivia_dropWhile]

theorem dropWhile_of_not_startsTrivia (h : ¬StartsTrivia cs) : cs.dropWhile isTrivia = cs := by
  cases cs with
  | nil => rfl
  | cons c cs => exact List.dropWhile_cons_of_neg fun hc => h (.blank hc cs)

theorem skipTrivia_of_trivia (h : Trivia lead rest) : skipTrivia (lead ++ rest) = rest := by
  induction h with
  | @done rest hrest =>
      have hdrop := dropWhile_of_not_startsTrivia hrest
      rw [List.nil_append, skipTrivia_of_token, hdrop]
      · rintro tail htail
        exact hrest (hdrop ▸ htail ▸ .line tail)
      · rintro tail htail
        exact hrest (hdrop ▸ htail ▸ .block tail)
  | @blank c lead rest hc _ ih => rw [List.cons_append, skipTrivia_blank hc, ih]
  | @line body lead rest hbody hend _ ih =>
      rw [List.cons_append, List.cons_append, List.append_assoc, skipTrivia_of_line rfl,
        fromLineFeed_append hbody hend, ih]
  | @block body lead rest hbody _ ih =>
      have hafter : afterBlockComment? (body ++ '*' :: '/' :: (lead ++ rest)) =
          some (lead ++ rest) := afterBlockComment?_eq_some_iff.2 ⟨body, rfl, hbody⟩
      rw [List.cons_append, List.cons_append, List.append_assoc, skipTrivia_of_block rfl,
        List.cons_append, List.cons_append, hafter, Option.map_some, Option.getD_some, ih]
  | @unclosed body hbody =>
      have hopen := afterBlockComment?_eq_none_iff.2 hbody
      rw [List.append_nil, skipTrivia_of_block rfl, hopen, Option.map_none, Option.getD_none]

theorem Trivia.blanks {blanks : List Char} (hblanks : ∀ c ∈ blanks, isTrivia c = true)
    (h : Trivia lead rest) : Trivia (blanks ++ lead) rest := by
  induction blanks with
  | nil => exact h
  | cons c blanks ih =>
      obtain ⟨hc, hblanks⟩ := List.forall_mem_cons.1 hblanks
      exact .blank hc (ih hblanks)

theorem exists_trivia_of_dropWhile
    (h : ∃ lead rest, cs.dropWhile isTrivia = lead ++ rest ∧ Trivia lead rest) :
    ∃ lead rest, cs = lead ++ rest ∧ Trivia lead rest := by
  obtain ⟨lead, rest, hsplit, htrivia⟩ := h
  refine ⟨cs.takeWhile isTrivia ++ lead, rest, ?_, htrivia.blanks ?_⟩
  · rw [List.append_assoc, ← hsplit, List.takeWhile_append_dropWhile]
  · exact List.all_eq_true.1 List.all_takeWhile

/-- Every text starts as the grammar says. -/
theorem exists_trivia (cs : List Char) : ∃ lead rest, cs = lead ++ rest ∧ Trivia lead rest := by
  induction cs using skipTrivia.induct with
  | case1 cs text h _ ih =>
      obtain ⟨lead, rest, hsplit, htrivia⟩ := ih
      obtain ⟨body, hbody, hline, hend⟩ := exists_fromLineFeed text
      refine exists_trivia_of_dropWhile ⟨'/' :: '/' :: (body ++ lead), rest, ?_,
        .line hline (hsplit ▸ hend) htrivia⟩
      rw [h, hbody, hsplit, List.cons_append, List.cons_append, List.append_assoc]
  | case2 cs text h after hafter _ ih =>
      obtain ⟨lead, rest, rfl, htrivia⟩ := ih
      obtain ⟨body, rfl, hbody⟩ := afterBlockComment?_eq_some_iff.1 hafter
      refine exists_trivia_of_dropWhile ⟨'/' :: '*' :: (body ++ '*' :: '/' :: lead), rest, ?_,
        .block hbody htrivia⟩
      rw [h, List.cons_append, List.cons_append, List.append_assoc, List.cons_append,
        List.cons_append]
  | case3 cs text h hopen =>
      refine exists_trivia_of_dropWhile ⟨'/' :: '*' :: text, [], ?_,
        .unclosed (afterBlockComment?_eq_none_iff.1 hopen)⟩
      rw [h, List.append_nil]
  | case4 cs hline hblock =>
      refine exists_trivia_of_dropWhile ⟨[], cs.dropWhile isTrivia, rfl, .done ?_⟩
      intro hstarts
      have hfirst := List.head?_dropWhile_not isTrivia cs
      cases hdrop : cs.dropWhile isTrivia with
      | nil =>
          rw [hdrop] at hstarts
          cases hstarts
      | cons c rest =>
          rw [hdrop] at hfirst hstarts
          cases hstarts with
          | blank hc rest =>
              rw [List.head?_cons] at hfirst
              exact Bool.false_ne_true (hfirst.symm.trans hc)
          | line rest => exact hline rest hdrop
          | block rest => exact hblock rest hdrop

/-- The text after a line that names an interpreter. -/
def afterInterpreter (cs : List Char) : List Char :=
  match cs with
  | '#' :: '!' :: _ => fromLineFeed cs
  | _ => cs

theorem leadingTrivia_eq (cs : List Char) :
    leadingTrivia cs = byteLength cs - byteLength (skipTrivia (afterInterpreter cs)) := rfl

theorem afterInterpreter_of_interpreter (h : Interpreter line rest) :
    afterInterpreter (line ++ rest) = rest := by
  cases h with
  | absent h =>
      rw [List.nil_append, afterInterpreter]
      rintro tail rfl
      exact h ⟨tail, rfl⟩
  | @line body rest hbody hend =>
      have hmark : '\n' ∉ '#' :: '!' :: body := by simp [hbody]
      show fromLineFeed ('#' :: '!' :: body ++ rest) = rest
      exact fromLineFeed_append hmark hend

theorem exists_interpreter (cs : List Char) :
    ∃ line rest, cs = line ++ rest ∧ Interpreter line rest := by
  by_cases h : ['#', '!'] <+: cs
  · obtain ⟨tail, rfl⟩ := h
    obtain ⟨body, hbody, hline, hend⟩ := exists_fromLineFeed tail
    exact ⟨'#' :: '!' :: body, fromLineFeed tail, congrArg (['#', '!'] ++ ·) hbody,
      .line hline hend⟩
  · exact ⟨[], cs, rfl, .absent h⟩

theorem leadingTrivia_of_leading (h : Leading lead rest) :
    leadingTrivia (lead ++ rest) = byteLength lead := by
  cases h with
  | @intro line lead rest hline htrivia =>
      rw [leadingTrivia_eq, List.append_assoc, afterInterpreter_of_interpreter hline,
        skipTrivia_of_trivia htrivia, ← List.append_assoc, byteLength_append (line ++ lead) rest,
        Nat.add_sub_cancel]

theorem exists_leading (cs : List Char) : ∃ lead rest, cs = lead ++ rest ∧ Leading lead rest := by
  obtain ⟨line, text, rfl, hline⟩ := exists_interpreter cs
  obtain ⟨lead, rest, rfl, htrivia⟩ := exists_trivia text
  exact ⟨line ++ lead, rest, (List.append_assoc ..).symm, .intro hline htrivia⟩

/-- The main statement: for every text the bytes of leading trivia are within the
text and end between two characters, and a start of the text takes just so many
bytes exactly if it is all that comes before the first token. -/
theorem leadingTrivia_exact :
    (∀ cs, leadingTrivia cs ≤ byteLength cs ∧ isBoundary cs (leadingTrivia cs) = true) ∧
    (∀ lead rest, leadingTrivia (lead ++ rest) = byteLength lead ↔ Leading lead rest) := by
  constructor
  · intro cs
    refine ⟨Nat.sub_le _ _, isBoundary_iff.2 ?_⟩
    obtain ⟨lead, rest, rfl, hleading⟩ := exists_leading cs
    exact ⟨lead, rest, rfl, (leadingTrivia_of_leading hleading).symm⟩
  · intro lead rest
    constructor
    · intro h
      obtain ⟨lead', rest', hsplit, hleading⟩ := exists_leading (lead ++ rest)
      rw [hsplit, leadingTrivia_of_leading hleading] at h
      obtain ⟨rfl, rfl⟩ := append_inj_of_byteLength_eq hsplit h.symm
      exact hleading
    · exact leadingTrivia_of_leading

end StyleSense
