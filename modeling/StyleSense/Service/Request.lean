/-
# Requests

A request is one line of JSON: a command and its parameters. Reading it goes in
three steps, each with its own error: the line itself, the name of the command,
and the parameters, which may be missing or of the wrong form.
-/

import StyleSense.Json.Reader
import StyleSense.Service.Encoding
import StyleSense.Service.Settings

namespace StyleSense.Service

open StyleSense.Text

/-- What a client may ask for. -/
inductive Request
  | ping
  | configure (settings : Settings)
  | openDocument (uri languageId : String) (version : Int) (text : String) (ast : Option Json)
  | change (uri : String) (version : Int) (text : String) (ast : Option Json)
  | close (uri : String)
  | hover (uri : String) (position : Position)
  | complete (uri : String) (position : Position)
  | colors (uri : String)
  | colorPresentation (uri : String) (range : Range) (color : Color)
  | shutdown

/-- Why a line is no request. -/
inductive RequestError
  | invalidLine
  | unknownCommand (name : String)
  | missingParams (command : String)
  | invalidParams (command : String)
  deriving DecidableEq, Repr

/-- The wording of a request error. -/
def RequestError.message : RequestError → String
  | invalidLine => "Invalid JSON format"
  | unknownCommand name => "Unknown command: " ++ name
  | missingParams command => "Missing params for " ++ command
  | invalidParams command => "Invalid params for " ++ command

/-- A command by name, with its parameters. -/
structure Envelope where
  command : String
  params : Option Json

namespace Envelope

/-- How deep parameters may nest, being nested once themselves. -/
def paramsDepth : Nat := Json.maxDepth - 1

/-- The parameters as a dictionary holds them, if all of them can be read. -/
def paramsOf? (value : Json) : Option Json :=
  if value.readable paramsDepth then some value.lastFields else none

/-- The envelope in a line. Null stands for missing parameters. -/
def ofText? (line : String) : Option Envelope := do
  let value ← Json.ofText? line
  let fields ← Json.record? ["command", "params"] value
  let command ← Json.required? Json.asString? "command" fields
  let params ← Json.withDefault? (Json.orNull? paramsOf?) none "params" fields
  some ⟨command, params⟩

end Envelope

namespace Request

/-! Readers of parameters. -/

/-- The version of a document. -/
def version? (fields : List (String × Json)) : Option Int :=
  Json.withDefault? (Json.asIntegerIn? (-2147483648) 2147483647) 0 "version" fields

/-- The tree that comes with a document. -/
def ast? (fields : List (String × Json)) : Option (Option Json) :=
  Json.withDefault? (Json.orNull? some) none "ast" fields

/-- A document with its language. -/
def openOf? (params : Json) : Option Request := do
  let fields ← Json.record? ["uri", "languageId", "version", "text", "ast"] params
  let uri ← Json.required? Json.asString? "uri" fields
  let languageId ← Json.required? Json.asString? "languageId" fields
  let version ← version? fields
  let text ← Json.required? Json.asString? "text" fields
  let ast ← ast? fields
  some (.openDocument uri languageId version text ast)

/-- A document's new text. -/
def changeOf? (params : Json) : Option Request := do
  let fields ← Json.record? ["uri", "version", "text", "ast"] params
  let uri ← Json.required? Json.asString? "uri" fields
  let version ← version? fields
  let text ← Json.required? Json.asString? "text" fields
  let ast ← ast? fields
  some (.change uri version text ast)

/-- The name of a document. -/
def documentOf? (params : Json) : Option String := do
  let fields ← Json.record? ["uri"] params
  Json.required? Json.asString? "uri" fields

/-- A position in a document. -/
def placeOf? (params : Json) : Option (String × Position) := do
  let fields ← Json.record? ["uri", "position"] params
  let uri ← Json.required? Json.asString? "uri" fields
  let position ← Json.required? positionOf? "position" fields
  some (uri, position)

/-- A color for a range of a document. -/
def presentationOf? (params : Json) : Option Request := do
  let fields ← Json.record? ["uri", "range", "color"] params
  let uri ← Json.required? Json.asString? "uri" fields
  let range ← Json.required? rangeOf? "range" fields
  let color ← Json.required? colorOf? "color" fields
  some (.colorPresentation uri range color)

/-- What the parameters of a command are read with; none for a command that
takes none or does not exist. -/
def readerOf? : String → Option (Json → Option Request)
  | "CONFIGURE" => some fun params => (Settings.ofJson? params).map .configure
  | "OPEN" => some openOf?
  | "CHANGE" => some changeOf?
  | "CLOSE" => some fun params => (documentOf? params).map .close
  | "HOVER" => some fun params => (placeOf? params).map fun (uri, place) => .hover uri place
  | "COMPLETE" => some fun params => (placeOf? params).map fun (uri, place) => .complete uri place
  | "COLORS" => some fun params => (documentOf? params).map .colors
  | "COLOR_PRESENTATION" => some presentationOf?
  | _ => none

/-- The request in an envelope. -/
def ofEnvelope (e : Envelope) : Except RequestError Request :=
  if e.command = "PING" then .ok .ping
  else if e.command = "SHUTDOWN" then .ok .shutdown
  else
    match readerOf? e.command, e.params with
    | none, _ => .error (.unknownCommand e.command)
    | some _, none => .error (.missingParams e.command)
    | some read, some params =>
        match read params with
        | some request => .ok request
        | none => .error (.invalidParams e.command)

/-- The request in a line. -/
def ofText (line : String) : Except RequestError Request :=
  match Envelope.ofText? line with
  | some e => ofEnvelope e
  | none => .error .invalidLine

end Request

end StyleSense.Service
