/-
# The style API

The members of the style namespace that mean something to the analyses, and
the calls among them that produce styles.
-/

namespace StyleSense

/-- A member of the style namespace. -/
inductive ApiMember
  | create
  | createTheme
  | defineVars
  | keyframes
  | firstThatWorks
  | types
  | props
  | styles
  | staticStyles
  | other (name : String)
  deriving DecidableEq, Repr

/-- Calls that produce styles. -/
inductive CallKind
  | create
  | createTheme
  | defineVars
  | keyframes
  deriving DecidableEq, Repr

/-- Theme calls declare variables rather than styles. -/
def CallKind.isTheme : CallKind → Bool
  | createTheme | defineVars => true
  | create | keyframes => false

namespace ApiMember

/-- The member of this name. -/
def ofName : String → ApiMember
  | "create" => create
  | "createTheme" => createTheme
  | "defineVars" => defineVars
  | "keyframes" => keyframes
  | "firstThatWorks" => firstThatWorks
  | "types" => types
  | "props" => props
  | "StyleXStyles" => styles
  | "StaticStyles" => staticStyles
  | name => other name

/-- The call that the member makes. -/
def callKind? : ApiMember → Option CallKind
  | create => some .create
  | createTheme => some .createTheme
  | defineVars => some .defineVars
  | keyframes => some .keyframes
  | _ => none

end ApiMember

end StyleSense
