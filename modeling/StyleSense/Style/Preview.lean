/-
# Previews

The rule that a style key compiles to. Where the key sits (in which call, for
which variable, below which keys) gives the selector and the rules around it;
what its value evaluated to gives the declarations.
-/

import StyleSense.Scope.Api
import StyleSense.Style.Name
import StyleSense.Style.Normalize
import StyleSense.Value.Basic

namespace StyleSense.Style

open StyleSense.Text

/-- Where a declaration sits. -/
structure Site where
  call : CallKind
  /-- The variable that the call's result goes to. -/
  caller : Option String
  /-- Enclosing keys, the outermost first. -/
  parents : List String
  key : String
  /-- The value type that the value is wrapped in. -/
  valueType : Option String

/-- Lines of a stylesheet. -/
structure Preview where
  lines : List String
  deriving DecidableEq, Repr

/-- Lines joined by line feeds. -/
def joinLines : List String → String
  | [] => ""
  | first :: rest => rest.foldl (fun text line => text ++ "\n" ++ line) first

/-- The preview as a fenced block. -/
def Preview.markdown (p : Preview) : String :=
  "```css\n" ++ joinLines p.lines ++ "\n```"

/-- Whether a text starts with this character. -/
def startsWith (c : Char) (text : String) : Bool :=
  text.toList.head? = some c

namespace Site

/-- The parts that make up the selector, the outermost first. A theme starts
with its class or the root, and its first parent names a variable. -/
def path (s : Site) : List String :=
  if s.call.isTheme then
    (match s.caller with
      | some caller => "." ++ caller
      | none => ":root") :: (s.parents.drop 1 ++ [s.key])
  else s.parents ++ [s.key]

/-- The rules around the selector, the outermost first. -/
def atRules (s : Site) : List String :=
  let rules := s.path.filter (startsWith '@')
  if s.call = .keyframes then ("@keyframes " ++ s.caller.getD "unknown") :: rules else rules

/-- Whether a key is the name of a property. -/
def isPropertyKey (key : String) : Bool :=
  !startsWith ':' key && !startsWith '@' key && key ≠ "default"

/-- The property that is declared: a theme's variable, or the innermost key
that names a property. -/
def property (s : Site) : String :=
  if s.call.isTheme then
    let name := s.parents.head?.getD s.key
    if isCustom name then name else "--" ++ name
  else (s.path.reverse.find? isPropertyKey).getD "unknown"

/-- The first part of the path and every pseudo-class. -/
def selectorParts (s : Site) : List String :=
  match s.path with
  | [] => []
  | first :: rest => first :: rest.filter (startsWith ':')

/-- Whether `a` comes no later than `b` by code points. -/
def notAfter (a b : String) : Bool :=
  compareCodePoints a.toList b.toList ≠ .gt

/-- The selector. In a style it is a class followed by its pseudo-classes: the
parts in falling order, which puts colons after most names. -/
def selector (s : Site) : String :=
  if s.call = .create then
    let joined := String.join (s.selectorParts.mergeSort notAfter).reverse
    if joined = "" then ".unknown" else "." ++ joined
  else s.path.head?.getD "unknown"

end Site

/-- The text of one value; none for what no stylesheet can hold. A name that is
not known is a variable, or an animation. -/
def scalarText? (normalize : Normalization) (property : String) : Evaluation → Option String
  | .known .null _ | .known .undefined _ => some "initial"
  | .known (.string s) _ => some (normalize property (.text s))
  | .known (.number x) _ => some (normalize property (.number x))
  | .known _ _ => none
  | .reference path _ =>
      some (if property = "animation" || property = "animationName" then path
        else "var(--" ++ path ++ ")")
  | .dynamic => none

/-- The texts to declare, one for each fallback. One that has none takes away
the whole declaration. -/
def declaredTexts? (normalize : Normalization) (property : String) :
    Evaluation → Option (List String)
  | .known (.array items) _ => items.mapM (scalarText? normalize property)
  | value => (scalarText? normalize property value).map ([·])

/-- Two blanks for each level. -/
def indent (level : Nat) : String :=
  String.ofList (List.replicate (2 * level) ' ')

/-- A line that opens a block. -/
def opening (level : Nat) (head : String) : String :=
  indent level ++ head ++ " \x7b"

/-- A line that closes a block. -/
def closing (level : Nat) : String :=
  indent level ++ "\x7d"

/-- Opens a block for each rule, the outermost first. -/
def openRules (level : Nat) : List String → List String
  | [] => []
  | rule :: rest => opening level rule :: openRules (level + 1) rest

/-- Closes the blocks of `count` rules, the innermost first. -/
def closeRules : Nat → List String
  | 0 => []
  | count + 1 => closing count :: closeRules count

/-- The block that gives a property its value type. -/
def typeLines (dashed valueType : String) : List String :=
  [opening 0 ("@property " ++ dashed), "  syntax: \"<" ++ valueType ++ ">\";", closing 0, ""]

/-- The lines of a rule with these declarations. -/
def ruleLines (s : Site) (dashed : String) (texts : List String) : List String :=
  let level := s.atRules.length
  (match s.valueType with
    | some valueType => typeLines dashed valueType
    | none => []) ++
    openRules 0 s.atRules ++
    opening level s.selector ::
      (texts.map fun text => indent (level + 1) ++ dashed ++ ": " ++ text ++ ";") ++
    closing level :: closeRules level

/-- The preview of a declaration; none when its value cannot be told or there
is nothing between the braces of a bare rule. -/
def preview? (normalize : Normalization) (s : Site) (value : Evaluation) : Option Preview :=
  (declaredTexts? normalize s.property value).bind fun texts =>
    let lines := ruleLines s (dashify s.property) texts
    if 2 < lines.length then some ⟨lines⟩ else none

end StyleSense.Style
