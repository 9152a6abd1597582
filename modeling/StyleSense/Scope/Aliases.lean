/-
# Bringing in the style API

Import declarations and `require` declarators of an accepted module add names
to a tracker. Those of any other module add none.
-/

import StyleSense.Evaluate

namespace StyleSense.Tracker

/-- A name for an export: the default export is the namespace itself. -/
def addExport (t : Tracker) (name exported : String) : Tracker :=
  if exported = "default" then t.addNamespace name else t.addMember name exported

/-- The names of one import specifier. -/
def addSpecifier (t : Tracker) : Node → Tracker
  | .importDefault _ local_ | .importNamespace _ local_ =>
      match local_.identifierName? with
      | some name => t.addNamespace name
      | none => t
  | .importNamed _ local_ imported =>
      match local_.identifierName? with
      | some name => t.addExport name ((imported.bind Node.exportName?).getD name)
      | none => t
  | _ => t

/-- The names of an import declaration. -/
def addImport (t : Tracker) (specifiers : List Node) (source : Node) : Tracker :=
  match source.stringValue? with
  | some module =>
      if t.acceptsModule module then specifiers.foldl addSpecifier t else t
  | none => t

/-- The module that `require("m")` names. -/
def requireCall? : Node → Option String
  | .call _ callee arguments _ =>
      if callee.identifierName? = some "require" then
        match arguments with
        | [] => none
        | first :: _ => if first.spread.isSome then none else first.expression.stringValue?
      else none
  | _ => none

/-- The module that `require("m")` or `require("m").default` names, and
whether it is the latter. -/
def requiredModule? : Node → Option (String × Bool)
  | .member _ object property =>
      if property.identifierName? = some "default" then (requireCall? object).map (·, true)
      else none
  | node => (requireCall? node).map (·, false)

/-- The local name of a destructuring target, with or without a default. -/
def bindingName? : Node → Option String
  | .identifier _ name _ => some name
  | .defaulted _ left _ => left.identifierName?
  | _ => none

/-- The names of one property of a destructured module. Of the default export
every property is a member, even one called `default`. -/
def addPattern (ofDefault : Bool) (t : Tracker) : Node → Tracker
  | .pair .pattern key value =>
      match t.propertyKey? key, bindingName? value with
      | some exported, some name =>
          if ofDefault then t.addMember name exported else t.addExport name exported
      | _, _ => t
  | .shorthand _ key _ =>
      match key.identifierName? with
      | some name => t.addMember name name
      | none => t
  | _ => t

/-- The names of a declarator that is initialised by a required module. -/
def addRequire (t : Tracker) (target : Node) (init : Option Node) : Tracker :=
  match init.bind requiredModule? with
  | some (module, ofDefault) =>
      if t.acceptsModule module then
        match target with
        | .identifier _ name _ => t.addNamespace name
        | .objectPattern _ properties _ => properties.foldl (addPattern ofDefault) t
        | _ => t
      else t
  | none => t

end StyleSense.Tracker
