/-
# Two ways to bring a module in

An import declaration and a declarator of a required module are different
syntax for the same thing. Each form is given here as it is written, with the
spans and annotations left free, and what it adds is reduced to what one pair of
an export and a local name adds. The main statement says that both ways leave
the same tracker, that a module which exports no style API leaves it as it was,
and that constants and modules are never touched.

Properties of `require(m).default` are left out: all of them are members there,
while an import has no form that reaches into the default export.
-/

import Mathlib.Data.List.Forall2
import StyleSense.Proofs.Assist.Notes

namespace StyleSense

/-- An export of a module and the name that it gets in a file. -/
structure Alias where
  exported : String
  name : String
  deriving DecidableEq, Repr

namespace Alias

/-- The name of an export, written as an identifier or as text. -/
inductive WritesExport (exported : String) : Node → Prop
  | identifier (span : Span) (declared : Option Node) :
      WritesExport exported (.identifier span exported declared)
  | text (span : Span) : WritesExport exported (.string span exported)

/-- `exported as name` of an import declaration. -/
inductive Specifies (a : Alias) : Node → Prop
  | renamed {key : Node} (hkey : WritesExport a.exported key) (span place : Span)
      (declared : Option Node) :
      Specifies a (.importNamed span (.identifier place a.name declared) (some key))

/-- `exported: name` of a pattern. -/
inductive Destructures (a : Alias) : Node → Prop
  | renamed {key : Node} (hkey : WritesExport a.exported key) (place : Span)
      (declared : Option Node) :
      Destructures a (.pair .pattern key (.identifier place a.name declared))

/-- `require("module")`, whatever further arguments it has. -/
inductive Requires (module : String) : Node → Prop
  | call (span place quoted : Span) (declared typeArgs : Option Node)
      (more : List (Argument Node)) :
      Requires module (.call span (.identifier place "require" declared)
        (⟨none, .string quoted module⟩ :: more) typeArgs)

/-- `require("module").default`. -/
inductive RequiresDefault (module : String) : Node → Prop
  | member {init : Node} (hinit : Requires module init) (span place : Span)
      (declared : Option Node) :
      RequiresDefault module (.member span init (.identifier place "default" declared))

/-- `import { exported as name, ... } from "module"`. -/
inductive ImportsEach (module : String) (aliases : List Alias) : Node → Prop
  | declaration {specifiers : List Node} (hspecifiers : List.Forall₂ Specifies aliases specifiers)
      (span quoted : Span) (asserts : Option Node) :
      ImportsEach module aliases (.importFrom span specifiers (.string quoted module) asserts)

/-- `{ exported: name, ... } = require("module")`. -/
inductive RequiresEach (module : String) (aliases : List Alias) : Node → Prop
  | declarator {properties : List Node} {init : Node}
      (hproperties : List.Forall₂ Destructures aliases properties) (hinit : Requires module init)
      (span place : Span) (declared : Option Node) :
      RequiresEach module aliases
        (.declarator span (.objectPattern place properties declared) (some init))

/-- The forms that give a name to a module as a whole: `import name from`,
`import * as name from`, `name = require(..)` and `name = require(..).default`. -/
inductive NamesWhole (module name : String) : Node → Prop
  | importDefault (span inner place quoted : Span) (declared asserts : Option Node) :
      NamesWhole module name (.importFrom span
        [.importDefault inner (.identifier place name declared)] (.string quoted module) asserts)
  | importNamespace (span inner place quoted : Span) (declared asserts : Option Node) :
      NamesWhole module name (.importFrom span
        [.importNamespace inner (.identifier place name declared)] (.string quoted module) asserts)
  | require {init : Node} (hinit : Requires module init) (span place : Span)
      (declared : Option Node) :
      NamesWhole module name (.declarator span (.identifier place name declared) (some init))
  | requireDefault {init : Node} (hinit : RequiresDefault module init) (span place : Span)
      (declared : Option Node) :
      NamesWhole module name (.declarator span (.identifier place name declared) (some init))

/-- Import declarations and declarators that take anything from a module. -/
inductive TakesFrom (module : String) : Node → Prop
  | importFrom (span quoted : Span) (specifiers : List Node) (asserts : Option Node) :
      TakesFrom module (.importFrom span specifiers (.string quoted module) asserts)
  | require {init : Node} (hinit : Requires module init) (span : Span) (target : Node) :
      TakesFrom module (.declarator span target (some init))
  | requireDefault {init : Node} (hinit : RequiresDefault module init) (span : Span)
      (target : Node) :
      TakesFrom module (.declarator span target (some init))

end Alias

namespace Tracker

open Alias

variable {exported module name : String} {aliases : List Alias} {a : Alias} {init key n : Node}

/-- What an import declaration or a declarator adds to the names of a file. -/
def register (t : Tracker) : Node → Tracker
  | .importFrom _ specifiers source _ => t.addImport specifiers source
  | .declarator _ target init => t.addRequire target init
  | _ => t

/-- Taking note of such a node adds that, and changes nothing else. -/
theorem enter_of_takesFrom {α β : Type} (notes : Assist.Notes β) (h : TakesFrom module n) :
    (notes.enter n : Option (Flow α) × Assist.Notes β).2 =
      { notes with tracker := notes.tracker.register n } := by
  cases h <;> rfl

/-- What the names of several exports add, one after the other. -/
def addAliases (t : Tracker) (aliases : List Alias) : Tracker :=
  aliases.foldl (fun t a => t.addExport a.name a.exported) t

theorem exportName?_of_writesExport (h : WritesExport exported key) :
    key.exportName? = some exported := by
  cases h <;> rfl

theorem propertyKey?_of_writesExport (h : WritesExport exported key) (t : Tracker) :
    t.propertyKey? key = some exported := by
  cases h <;> rw [propertyKey?]

theorem addSpecifier_of_specifies (h : Specifies a n) (t : Tracker) :
    t.addSpecifier n = t.addExport a.name a.exported := by
  cases h with
  | renamed hkey span place declared =>
      simp only [addSpecifier, Node.identifierName?, Option.bind_some,
        exportName?_of_writesExport hkey, Option.getD_some]

theorem addPattern_of_destructures (h : Destructures a n) (t : Tracker) :
    t.addPattern false n = t.addExport a.name a.exported := by
  cases h with
  | renamed hkey place declared =>
      simp only [addPattern, propertyKey?_of_writesExport hkey, bindingName?, Bool.false_eq_true,
        if_false]

/-- Entries that each add one alias add them all, in their order. -/
theorem foldl_eq_addAliases {Writes : Alias → Node → Prop} {add : Tracker → Node → Tracker}
    {entries : List Node} (h : List.Forall₂ Writes aliases entries)
    (hadd : ∀ a n, Writes a n → ∀ t, add t n = t.addExport a.name a.exported) (t : Tracker) :
    entries.foldl add t = t.addAliases aliases := by
  induction h generalizing t with
  | nil => rfl
  | @cons a n aliases entries hentry _ ih =>
      calc (n :: entries).foldl add t
          = entries.foldl add (t.addExport a.name a.exported) := by
            rw [List.foldl_cons, hadd a n hentry]
        _ = (t.addExport a.name a.exported).addAliases aliases := ih _

theorem requiredModule?_of_requires (h : Requires module init) :
    requiredModule? init = some (module, false) := by
  cases h
  rfl

theorem requiredModule?_of_requiresDefault (h : RequiresDefault module init) :
    requiredModule? init = some (module, true) := by
  cases h with
  | member hinit span place declared =>
      cases hinit
      rfl

theorem addImport_of_accepts {t : Tracker} (h : t.acceptsModule module = true)
    (specifiers : List Node) (quoted : Span) :
    t.addImport specifiers (.string quoted module) = specifiers.foldl addSpecifier t := by
  simp only [addImport, Node.stringValue?, h, if_true]

theorem addRequire_identifier {t : Tracker} (h : t.acceptsModule module = true)
    {ofDefault : Bool} (hinit : requiredModule? init = some (module, ofDefault)) (place : Span)
    (name : String) (declared : Option Node) :
    t.addRequire (.identifier place name declared) (some init) = t.addNamespace name := by
  simp only [addRequire, Option.bind_some, hinit, h, if_true]

theorem addRequire_objectPattern {t : Tracker} (h : t.acceptsModule module = true)
    {ofDefault : Bool} (hinit : requiredModule? init = some (module, ofDefault)) (place : Span)
    (properties : List Node) (declared : Option Node) :
    t.addRequire (.objectPattern place properties declared) (some init) =
      properties.foldl (addPattern ofDefault) t := by
  simp only [addRequire, Option.bind_some, hinit, h, if_true]

theorem register_of_importsEach {t : Tracker} (h : t.acceptsModule module = true)
    (hn : ImportsEach module aliases n) : t.register n = t.addAliases aliases := by
  cases hn with
  | declaration hspecifiers span quoted asserts =>
      rw [register, addImport_of_accepts h]
      exact foldl_eq_addAliases hspecifiers (fun _ _ => addSpecifier_of_specifies) t

theorem register_of_requiresEach {t : Tracker} (h : t.acceptsModule module = true)
    (hn : RequiresEach module aliases n) : t.register n = t.addAliases aliases := by
  cases hn with
  | declarator hproperties hinit span place declared =>
      rw [register, addRequire_objectPattern h (requiredModule?_of_requires hinit)]
      exact foldl_eq_addAliases hproperties (fun _ _ => addPattern_of_destructures) t

theorem register_of_namesWhole {t : Tracker} (h : t.acceptsModule module = true)
    (hn : NamesWhole module name n) : t.register n = t.addNamespace name := by
  cases hn with
  | importDefault span inner place quoted => exact addImport_of_accepts h _ quoted
  | importNamespace span inner place quoted => exact addImport_of_accepts h _ quoted
  | require hinit span place declared =>
      exact addRequire_identifier h (requiredModule?_of_requires hinit) place name declared
  | requireDefault hinit span place declared =>
      exact addRequire_identifier h (requiredModule?_of_requiresDefault hinit) place name declared

theorem register_of_not_accepts {t : Tracker} (h : t.acceptsModule module = false)
    (hn : TakesFrom module n) : t.register n = t := by
  -- A declarator names one module, and that is the one not accepted.
  have hrequire : ∀ {init ofDefault}, requiredModule? init = some (module, ofDefault) →
      ∀ target, t.addRequire target (some init) = t := by
    intro init ofDefault hinit target
    apply addRequire_eq_self
    intro required hrequired
    rw [Option.bind_some, hinit] at hrequired
    cases hrequired
    exact h
  cases hn with
  | importFrom span quoted specifiers asserts =>
      simp only [register, addImport, Node.stringValue?, h, Bool.false_eq_true, if_false]
  | require hinit span target => exact hrequire (requiredModule?_of_requires hinit) target
  | requireDefault hinit span target =>
      exact hrequire (requiredModule?_of_requiresDefault hinit) target

theorem sameConstants_register (t : Tracker) (n : Node) : SameConstants t (t.register n) := by
  unfold register
  split
  · exact sameConstants_addImport ..
  · exact sameConstants_addRequire ..
  · exact .refl t

/-- The main statement: exports that are named one by one leave the same tracker
whether they are imported or taken out of a required module, and so do the four
forms that name a module as a whole. What a module that is not accepted brings
in changes nothing, and no declaration changes the frames or the modules. -/
theorem register_agrees (t : Tracker) :
    (∀ module, t.acceptsModule module = true →
      (∀ aliases declaration declarator, ImportsEach module aliases declaration →
        RequiresEach module aliases declarator →
        t.register declaration = t.register declarator) ∧
      (∀ name m n, NamesWhole module name m → NamesWhole module name n →
        t.register m = t.register n)) ∧
    (∀ module, t.acceptsModule module = false →
      ∀ n, TakesFrom module n → t.register n = t) ∧
    (∀ n, (t.register n).frames = t.frames ∧ (t.register n).modules = t.modules) := by
  refine ⟨fun module haccepts => ⟨?_, ?_⟩, ?_, ?_⟩
  · intro aliases declaration declarator himports hrequires
    rw [register_of_importsEach haccepts himports, register_of_requiresEach haccepts hrequires]
  · intro name m n hm hn
    rw [register_of_namesWhole haccepts hm, register_of_namesWhole haccepts hn]
  · intro module hrefused n hn
    exact register_of_not_accepts hrefused hn
  · intro n
    exact ⟨(sameConstants_register t n).frames, (sameConstants_register t n).modules⟩

/-- A name is given twice, and a key is text in one form only. -/
def threeAliases : List Alias :=
  [⟨"create", "c"⟩, ⟨"default", "s"⟩, ⟨"types", "c"⟩]

/-- `import { create as c, "default" as s, types as c } from "stylex"`. -/
def importsThree : Node :=
  .importFrom ⟨1, 65⟩
    [.importNamed ⟨10, 21⟩ (.identifier ⟨20, 21⟩ "c" none)
        (some (.identifier ⟨10, 16⟩ "create" none)),
      .importNamed ⟨23, 37⟩ (.identifier ⟨36, 37⟩ "s" none) (some (.string ⟨23, 32⟩ "default")),
      .importNamed ⟨39, 49⟩ (.identifier ⟨48, 49⟩ "c" none)
        (some (.identifier ⟨39, 44⟩ "types" none))]
    (.string ⟨57, 65⟩ "stylex") none

/-- `require("stylex")`. -/
def requireStyles : Node :=
  .call ⟨45, 62⟩ (.identifier ⟨45, 52⟩ "require" none) [⟨none, .string ⟨53, 61⟩ "stylex"⟩] none

/-- `{ create: c, default: s, types: c } = require("stylex")`. -/
def requiresThree : Node :=
  .declarator ⟨7, 62⟩
    (.objectPattern ⟨7, 42⟩
      [.pair .pattern (.identifier ⟨9, 15⟩ "create" none) (.identifier ⟨17, 18⟩ "c" none),
        .pair .pattern (.identifier ⟨20, 27⟩ "default" none) (.identifier ⟨29, 30⟩ "s" none),
        .pair .pattern (.identifier ⟨32, 37⟩ "types" none) (.identifier ⟨39, 40⟩ "c" none)] none)
    (some requireStyles)

/-- `import * as s from "stylex"`. -/
def importsWhole : Node :=
  .importFrom ⟨1, 28⟩ [.importNamespace ⟨8, 14⟩ (.identifier ⟨13, 14⟩ "s" none)]
    (.string ⟨20, 28⟩ "stylex") none

/-- `s = require("stylex").default`. -/
def requiresWhole : Node :=
  .declarator ⟨41, 70⟩ (.identifier ⟨41, 42⟩ "s" none)
    (some (.member ⟨45, 70⟩ requireStyles (.identifier ⟨63, 70⟩ "default" none)))

theorem importsEach_importsThree : ImportsEach "stylex" threeAliases importsThree :=
  .declaration (.cons (.renamed (.identifier ..) ..) (.cons (.renamed (.text _) ..)
    (.cons (.renamed (.identifier ..) ..) .nil))) ..

theorem requires_requireStyles : Requires "stylex" requireStyles :=
  .call ..

theorem requiresEach_requiresThree : RequiresEach "stylex" threeAliases requiresThree :=
  .declarator (.cons (.renamed (.identifier ..) ..) (.cons (.renamed (.identifier ..) ..)
    (.cons (.renamed (.identifier ..) ..) .nil))) requires_requireStyles ..

/-- The default export becomes a namespace, and the name that is given twice
stands for the later export. A tracker for another module learns nothing. -/
theorem register_agrees_three :
    new.acceptsModule "stylex" = true ∧ (withModules ["acme"]).acceptsModule "stylex" = false ∧
      ImportsEach "stylex" threeAliases importsThree ∧
      RequiresEach "stylex" threeAliases requiresThree ∧
      new.register importsThree = new.register requiresThree ∧
      new.register importsWhole = new.register requiresWhole ∧
      (new.register requiresThree).namespaces = ["stylex", "s"] ∧
      (new.register requiresThree).members = [("c", .types)] ∧
      (withModules ["acme"]).register requiresThree = withModules ["acme"] := by
  have haccepts : new.acceptsModule "stylex" = true := by decide
  have hrefuses : (withModules ["acme"]).acceptsModule "stylex" = false := by decide
  obtain ⟨heach, hwhole⟩ := (register_agrees new).1 "stylex" haccepts
  have hthree := heach _ _ _ importsEach_importsThree requiresEach_requiresThree
  have hone := hwhole "s" importsWhole requiresWhole (.importNamespace ..)
    (.requireDefault (.member requires_requireStyles ..) ..)
  have hrefused := (register_agrees (withModules ["acme"])).2.1 "stylex" hrefuses requiresThree
    (.require requires_requireStyles ..)
  have hlearned := register_of_requiresEach haccepts requiresEach_requiresThree
  exact ⟨haccepts, hrefuses, importsEach_importsThree, requiresEach_requiresThree, hthree, hone,
    hlearned ▸ rfl, hlearned ▸ rfl, hrefused⟩

end Tracker

end StyleSense
