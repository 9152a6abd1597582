/-
# Replies

A session answers one request after another. Nothing of a failed request stays,
but for a tree that was parsed on the way. Requests of one client are answered
in order, so none is ever called off.
-/

import StyleSense.Service.Request
import StyleSense.Service.Session

namespace StyleSense.Service

open StyleSense.Assist

/-- What a request is answered with. -/
inductive Reply
  | pong
  | done
  | hover (answer : Option Hover)
  | completions (answer : Option CompletionList)
  | colors (answer : Option (List Swatch))
  | presentations (labels : List String)
  | goodbye

/-- A reply as a JSON value. -/
def Reply.toJson : Reply → Json
  | pong => .string "PONG"
  | done => .null
  | hover answer => jsonOfOption jsonOfHover answer
  | completions answer => jsonOfOption jsonOfCompletions answer
  | colors answer => jsonOfOption (fun swatches => .array (swatches.map jsonOfSwatch)) answer
  | presentations labels => .array (labels.map fun label => .object [("label", .string label)])
  | goodbye => .string "Shutting down..."

/-- Why a line is not answered. -/
inductive ReplyError
  | request (error : RequestError)
  | fault (fault : Fault)
  deriving DecidableEq, Repr

/-- The wording of a fault. A text that cannot be cut has none: the request
breaks off. -/
def Fault.message? : Fault → Option String
  | notOpen uri => some ("Document not open: " ++ uri)
  | noProgram => some ("Invalid parserCommand: " ++ ParserCommand.noProgram)
  | analysis (.scope error) => some error.message
  | analysis (.cut _) => none

/-- The wording of an error, if it has one. -/
def ReplyError.message? : ReplyError → Option String
  | request reason => some reason.message
  | fault reason => reason.message?

namespace Session

/-- A session after a change, or as it was when the change fails. -/
def changed (s : Session) : Except Fault Session → Except Fault Reply × Session
  | .ok next => (.ok .done, next)
  | .error fault => (.error fault, s)

/-- Answers a request. -/
def reply (s : Session) (programs : Programs) : Request → Except Fault Reply × Session
  | .ping => (.ok .pong, s)
  | .configure settings => s.changed (s.configure settings)
  | .openDocument uri languageId version text ast =>
      (.ok .done, s.openDocument uri languageId version text ast)
  | .change uri version text ast => s.changed (s.changeDocument uri version text ast)
  | .close uri => (.ok .done, s.closeDocument uri)
  | .hover uri position =>
      let (answer, s) := s.hover programs uri position .never
      (answer.map .hover, s)
  | .complete uri position =>
      let (answer, s) := s.completions programs uri position .never
      (answer.map .completions, s)
  | .colors uri =>
      let (answer, s) := s.documentColors programs uri .never
      (answer.map .colors, s)
  | .colorPresentation uri range color =>
      (.ok (.presentations (s.colorPresentation uri range color)), s)
  | .shutdown => (.ok .goodbye, s)

/-- Answers a line. -/
def replyTo (s : Session) (programs : Programs) (line : String) :
    Except ReplyError Reply × Session :=
  match Request.ofText line with
  | .error error => (.error (.request error), s)
  | .ok request =>
      let (answer, s) := s.reply programs request
      (answer.mapError .fault, s)

end Session

end StyleSense.Service
