/-
# Runs of a session

A session that answers one request after another, together with the record of
what it was asked. What is kept between requests is explained by that record:
by the text and the tree that a client last delivered for a document, and by
what happened since.

The programs that parse documents belong to the world outside. Each request is
answered with programs of its own, so nothing here relies on a parser that
writes the same twice.
-/

import StyleSense.Service.Reply

namespace StyleSense.Service

/-- A session that has answered nothing yet. -/
def Session.fresh (settings : Settings) (parser : Option ParserCommand) : Session :=
  ⟨settings, parser, .empty⟩

theorem Session.new_eq_fresh (settings : Settings) :
    Session.new settings = (parserOf settings).map (Session.fresh settings) := rfl

/-- A request, with what programs write while it is answered. -/
structure Turn where
  programs : Programs
  request : Request

/-- A request that was answered, and by which session. -/
structure Exchange where
  before : Session
  programs : Programs
  request : Request
  answer : Except Fault Reply

/-- A session with its past, the latest exchange first. -/
structure Run where
  session : Session
  past : List Exchange

namespace Run

/-- The run of a session that has answered nothing yet. -/
def start (settings : Settings) (parser : Option ParserCommand) : Run :=
  ⟨.fresh settings parser, []⟩

/-- Answers one more request. -/
def next (r : Run) (turn : Turn) : Run :=
  let (answer, session) := r.session.reply turn.programs turn.request
  ⟨session, ⟨r.session, turn.programs, turn.request, answer⟩ :: r.past⟩

/-- Answers requests in their order. -/
def after (r : Run) (turns : List Turn) : Run :=
  turns.foldl next r

/-- What holds at first and is kept by every answer holds after any requests. -/
theorem after_induction {P : Run → Prop} {r : Run} (base : P r)
    (step : ∀ r turn, P r → P (r.next turn)) (turns : List Turn) : P (r.after turns) := by
  induction turns generalizing r with
  | nil => exact base
  | cons turn turns ih => exact ih (step r turn base)

end Run

/-- The text of a document as a client sends it, perhaps with its tree. -/
structure Delivery where
  text : String
  ast : Option Json

/-- What a request delivers for a document. -/
def Request.delivery? (uri : String) : Request → Option Delivery
  | openDocument name _ _ text ast | change name _ text ast =>
      if name = uri then some ⟨text, ast⟩ else none
  | _ => none

/-- Whether a request asks about the contents of a document. -/
def Request.asksAbout (uri : String) : Request → Bool
  | hover name _ | complete name _ | colors name => name = uri
  | _ => false

/-- The latest delivery for a document. One for a document that is not open is
refused, and counts as well. -/
def latest? (uri : String) (past : List Exchange) : Option Delivery :=
  past.findSome? fun e => e.request.delivery? uri

/-- The exchanges after the latest delivery for a document. -/
def since (uri : String) (past : List Exchange) : List Exchange :=
  past.takeWhile fun e => (e.request.delivery? uri).isNone

/-- The tree that a session's parser makes of a document. -/
def Session.parse? (s : Session) (programs : Programs) (document : Document) : Option Node :=
  s.parser.bind fun parser =>
    parser.tree? programs (s.settings.parsedLanguage document.languageId) document.text

/-- The tree that the parser made of a document in an exchange about it. -/
def Exchange.parsed? (uri : String) (document : Document) (e : Exchange) : Option Node :=
  if e.request.asksAbout uri then e.before.parse? e.programs document else none

/-- The swatches of a document that were the answer. -/
def Exchange.swatches? (uri : String) (e : Exchange) : Option (List Swatch) :=
  match e.request, e.answer with
  | .colors name, .ok (.colors answer) => if name = uri then answer else none
  | _, _ => none

section

variable {uri : String} {e : Exchange} {past : List Exchange}

theorem latest?_cons_of_some {delivery : Delivery} (h : e.request.delivery? uri = some delivery) :
    latest? uri (e :: past) = some delivery := by
  rw [latest?, List.findSome?_cons, h]

theorem latest?_cons_of_none (h : e.request.delivery? uri = none) :
    latest? uri (e :: past) = latest? uri past := by
  rw [latest?, List.findSome?_cons, h]
  rfl

theorem since_cons_of_none (h : e.request.delivery? uri = none) :
    since uri (e :: past) = e :: since uri past := by
  rw [since, List.takeWhile_cons_of_pos (by rw [h]; rfl)]
  rfl

end

end StyleSense.Service
