/-
# Positions and colors in JSON

How the parts of requests and replies are written.
-/

import StyleSense.Assist.Completion
import StyleSense.Assist.Hover
import StyleSense.Color.Presentation
import StyleSense.Json.Record

namespace StyleSense.Service

open StyleSense.Text StyleSense.Assist

/-- A position. -/
def positionOf? (value : Json) : Option Position := do
  let fields ← Json.record? ["line", "character"] value
  let line ← Json.required? Json.asWord? "line" fields
  let character ← Json.required? Json.asWord? "character" fields
  some ⟨line, character⟩

/-- A range. -/
def rangeOf? (value : Json) : Option Range := do
  let fields ← Json.record? ["start", "end"] value
  let start ← Json.required? positionOf? "start" fields
  let stop ← Json.required? positionOf? "end" fields
  some ⟨start, stop⟩

/-- A color, whose channels may be any numbers. -/
def colorOf? (value : Json) : Option Color := do
  let fields ← Json.record? ["red", "green", "blue", "alpha"] value
  let red ← Json.required? Json.asFloat? "red" fields
  let green ← Json.required? Json.asFloat? "green" fields
  let blue ← Json.required? Json.asFloat? "blue" fields
  let alpha ← Json.required? Json.asFloat? "alpha" fields
  some ⟨red, green, blue, alpha⟩

/-- A 32-bit number. -/
def jsonOfWord (n : UInt32) : Json :=
  .number (.integer n.toNat)

/-- A position. -/
def jsonOfPosition (p : Position) : Json :=
  .object [("character", jsonOfWord p.character), ("line", jsonOfWord p.line)]

/-- A range. -/
def jsonOfRange (r : Range) : Json :=
  .object [("end", jsonOfPosition r.stop), ("start", jsonOfPosition r.start)]

/-- A color. A channel that is no number is null. -/
def jsonOfColor (c : Color) : Json :=
  let channel (x : Float) : Json := if x.isFinite then .number (.real x) else .null
  .object [("alpha", channel c.alpha), ("blue", channel c.blue), ("green", channel c.green),
    ("red", channel c.red)]

/-- A swatch. -/
def jsonOfSwatch (s : Swatch) : Json :=
  .object [("color", jsonOfColor s.color), ("range", jsonOfRange s.range)]

/-- A preview. -/
def jsonOfHover (h : Hover) : Json :=
  .object [("contents", .string h.contents), ("range", jsonOfRange h.range)]

/-- A suggestion. -/
def jsonOfSuggestion (s : Completion.Suggestion) : Json :=
  .object [("kind", .string s.kind.text), ("label", .string s.label),
    ("textEdit", .object [("newText", .string s.label), ("range", jsonOfRange s.range)])]

/-- A list of suggestions. -/
def jsonOfCompletions (list : CompletionList) : Json :=
  .object [("isIncomplete", .bool list.incomplete),
    ("items", .array (list.items.map jsonOfSuggestion))]

/-- A value, or null. -/
def jsonOfOption {α : Type} (write : α → Json) : Option α → Json
  | some x => write x
  | none => .null

end StyleSense.Service
