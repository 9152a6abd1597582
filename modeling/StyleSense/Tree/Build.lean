/-
# Trees from parts

Constructors for nodes whose span is the join of the spans of their parts, for
trees that no parser made.
-/

import StyleSense.Tree.Node

namespace StyleSense.Build

/-- The join of the spans of several nodes. -/
def cover (nodes : List Node) : Span :=
  .unionAll (nodes.map Node.span)

/-- An argument or element. -/
def item (expression : Node) : Argument Node :=
  ⟨none, expression⟩

/-- An argument or element behind three dots, which stand where it starts. -/
def spreadItem (expression : Node) : Argument Node :=
  ⟨some ⟨expression.span.start, expression.span.start⟩, expression⟩

/-- An array of elements, spread or not. -/
def arrayOf (elements : List (Argument Node)) : Node :=
  .array (cover (elements.map Argument.expression)) (elements.map some)

/-- An array. -/
def array (elements : List Node) : Node :=
  arrayOf (elements.map item)

/-- An object. -/
def object (properties : List Node) : Node :=
  .object (cover properties) properties

/-- The entry `key: value` of an object. -/
def property (key value : Node) : Node :=
  .pair .property key value

/-- The entry `...argument` of an object. -/
def spread (argument : Node) : Node :=
  .spread argument.span argument

/-- The key `[expression]`. -/
def computed (expression : Node) : Node :=
  .wrapped .computed expression.span expression

/-- An expression in parentheses. -/
def parenthesized (expression : Node) : Node :=
  .wrapped .parenthesis expression.span expression

/-- The member `target.key`. -/
def member (target key : Node) : Node :=
  .member (target.span.union key.span) target key

/-- A call with arguments, spread or not. -/
def callOf (callee : Node) (arguments : List (Argument Node)) : Node :=
  .call ((arguments.map fun argument => argument.expression.span).foldl Span.union callee.span)
    callee arguments none

/-- A call. -/
def call (callee : Node) (arguments : List Node) : Node :=
  callOf callee (arguments.map item)

/-- An operator between two operands. -/
def binary (operator : String) (left right : Node) : Node :=
  .binary (left.span.union right.span) operator left right

/-- An operator before its operand. -/
def unary (operator : String) (argument : Node) : Node :=
  .unary argument.span operator argument

/-- A choice between two expressions. -/
def conditional (test consequent alternate : Node) : Node :=
  .conditional (cover [test, consequent, alternate]) test consequent (some alternate)

/-- An arrow function. -/
def arrow (params : List Node) (body : Node) : Node :=
  .plain .arrowFunctionExpression (cover (params ++ [body]))
    [.many (params.map some), .one (some body), .one none, .one none] []

/-- A declared variable with its value. -/
def declarator (target init : Node) : Node :=
  .declarator (target.span.union init.span) target (some init)

/-- A declaration of variables. -/
def declaration (kind : String) (declarations : List Node) : Node :=
  .declaration (cover declarations) kind declarations

/-- The declaration of one constant. -/
def constant (target init : Node) : Node :=
  declaration "const" [declarator target init]

/-- An expression as a statement. -/
def statement (expression : Node) : Node :=
  .plain .expressionStatement expression.span [.one (some expression)] []

/-- Statements between braces. -/
def block (statements : List Node) : Node :=
  .block (cover statements) statements

/-- An exported declaration. -/
def exported (declaration : Node) : Node :=
  .plain .exportDeclaration declaration.span [.one (some declaration)] []

/-- An import of names from a source. -/
def importFrom (specifiers : List Node) (source : Node) : Node :=
  .importFrom (cover (specifiers ++ [source])) specifiers source none

/-- The default export under a local name. -/
def defaultSpecifier (name : Node) : Node :=
  .importDefault name.span name

/-- All exports under a local name. -/
def namespaceSpecifier (name : Node) : Node :=
  .importNamespace name.span name

/-- One export under a local name, which may differ from its own. -/
def namedSpecifier (name : Node) (imported : Option Node) : Node :=
  .importNamed ((imported.map fun other => other.span.union name.span).getD name.span)
    name imported

/-- A pattern that takes properties apart. -/
def objectPattern (properties : List Node) : Node :=
  .objectPattern (cover properties) properties none

/-- The entry `key: value` of a pattern. -/
def patternProperty (key value : Node) : Node :=
  .pair .pattern key value

/-- The entry `key` of a pattern. -/
def shorthand (key : Node) : Node :=
  .shorthand key.span key none

/-- A name for a type. -/
def typeAlias (name annotated : Node) : Node :=
  .plain .tsTypeAliasDeclaration (name.span.union annotated.span)
    [.one (some name), .one none, .one (some annotated)] []

/-- A type by its name, with brackets only if there are parameters. -/
def typeReference (name : Node) (params : List Node) : Node :=
  .typeReference (cover (params ++ [name])) name
    (if params.isEmpty then none else some (.typeArguments (cover params) params))

/-- An object type. -/
def typeLiteral (members : List Node) : Node :=
  .typeLiteral (cover members) members

/-- The entry `key: type` of an object type. -/
def propertySignature (key type : Node) : Node :=
  .propertySignature (key.span.union type.span) key (some (.declaredType type.span type))

/-- A literal as a type. -/
def literalType (literal : Node) : Node :=
  .literalType literal.span literal

/-- A choice of types. -/
def unionType (types : List Node) : Node :=
  .unionType (cover types) types

end StyleSense.Build
