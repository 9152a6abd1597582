/-
# Syntax trees

A tree of script source as a parser hands it over. Forms that some analysis
looks into have constructors of their own; all others are `plain`, with slots
for their children. What no analysis reads (whether a function is async, the
operator of an assignment) is not kept.

`Node.children` is the one place that says which children a node has, in which
order, and under which references. Everything that walks a tree goes through
it.
-/

import StyleSense.Tree.Span
import StyleSense.Tree.Form

namespace StyleSense

/-- The two kinds of source files. -/
inductive SourceType
  | module
  | script
  deriving DecidableEq, Repr

/-- Expressions that stand for the one they enclose. -/
inductive Wrapper
  | parenthesis
  | constAssertion
  | nonNull
  /-- A computed key, `[key]`. -/
  | computed
  deriving DecidableEq, Repr

/-- Expressions with a type beside them. -/
inductive Cast
  | asType
  | satisfies
  | assertion
  | instantiation
  deriving DecidableEq, Repr

/-- Key and value pairs. -/
inductive PairKind
  /-- An entry `key: value` of an object. -/
  | property
  /-- An entry `key = value` of an object. -/
  | assignment
  /-- An entry `key: value` of a pattern. -/
  | pattern
  deriving DecidableEq, Repr

/-- A call argument or array element; a spread one remembers where its dots
stand. -/
structure Argument (α : Type) where
  spread : Option Span
  expression : α

/-- A field of a plain node: one child or none, or a list with holes. -/
inductive Slot (α : Type)
  | one (child : Option α)
  | many (items : List (Option α))

/-- A syntax tree. -/
inductive Node where
  | program (type : SourceType) (span : Span) (body : List Node)
  | block (span : Span) (statements : List Node)
  | declaration (span : Span) (kind : String) (declarations : List Node)
  | declarator (span : Span) (target : Node) (init : Option Node)
  | importFrom (span : Span) (specifiers : List Node) (source : Node) (asserts : Option Node)
  | importDefault (span : Span) (local_ : Node)
  | importNamespace (span : Span) (local_ : Node)
  | importNamed (span : Span) (local_ : Node) (imported : Option Node)
  | string (span : Span) (value : String)
  | number (span : Span) (value : Float)
  | boolean (span : Span) (value : Bool)
  | null (span : Span)
  | bigint (span : Span) (raw : Option String)
  | regex (span : Span) (pattern flags : String)
  | identifier (span : Span) (name : String) (declared : Option Node)
  | array (span : Span) (elements : List (Option (Argument Node)))
  | object (span : Span) (properties : List Node)
  | spread (span : Span) (argument : Node)
  | unary (span : Span) (operator : String) (argument : Node)
  | binary (span : Span) (operator : String) (left right : Node)
  | assignment (span : Span) (left right : Node)
  /-- A pattern with a default. -/
  | defaulted (span : Span) (left right : Node)
  | member (span : Span) (object property : Node)
  | conditional (span : Span) (test consequent : Node) (alternate : Option Node)
  | call (span : Span) (callee : Node) (arguments : List (Argument Node))
      (typeArgs : Option Node)
  | template (span : Span) (quasis expressions types : List Node)
  | templatePart (span : Span) (cooked : Option String) (raw : String)
  | sequence (span : Span) (expressions : List Node)
  | await (span : Span) (argument : Option Node)
  | wrapped (wrapper : Wrapper) (span : Span) (expression : Node)
  | cast (kind : Cast) (span : Span) (expression : Node)
      (declared typeArgs : Option Node)
  /-- A pair has no span of its own. -/
  | pair (kind : PairKind) (key value : Node)
  /-- An entry `key` or `key = value` of a pattern. -/
  | shorthand (span : Span) (key : Node) (value : Option Node)
  | objectPattern (span : Span) (properties : List Node) (declared : Option Node)
  | typeReference (span : Span) (name : Node) (typeParams : Option Node)
  | qualifiedName (span : Span) (left right : Node)
  | typeArguments (span : Span) (params : List Node)
  | typeLiteral (span : Span) (members : List Node)
  | propertySignature (span : Span) (key : Node) (declared : Option Node)
  | declaredType (span : Span) (annotated : Node)
  | unionType (span : Span) (types : List Node)
  | literalType (span : Span) (literal : Node)
  /-- Here `slots` follow the form's visited fields, `rest` its other ones. -/
  | plain (form : Form) (span : Span) (slots rest : List (Slot Node))

namespace Node

/-- The node in place of a required child that is missing. -/
def invalid : Node := .plain .invalid Span.none [] []

instance : Inhabited Node := ⟨invalid⟩

/-- Where the node stands. A pair covers its key and its value. -/
def span : Node → Span
  | program _ s _ | block s _ | declaration s _ _ | declarator s _ _ | importFrom s _ _ _
  | importDefault s _ | importNamespace s _ | importNamed s _ _ | string s _ | number s _
  | boolean s _ | null s | bigint s _ | regex s _ _ | identifier s _ _ | array s _ | object s _
  | spread s _ | unary s _ _ | binary s _ _ _ | assignment s _ _ | defaulted s _ _ | member s _ _
  | conditional s _ _ _ | call s _ _ _ | template s _ _ _ | templatePart s _ _ | sequence s _
  | await s _ | wrapped _ s _ | cast _ s _ _ _ | shorthand s _ _ | objectPattern s _ _
  | typeReference s _ _ | qualifiedName s _ _ | typeArguments s _ | typeLiteral s _
  | propertySignature s _ _ | declaredType s _ | unionType s _ | literalType s _
  | plain _ s _ _ => s
  | pair _ key value => key.span.union value.span

/-- The name of the node's kind. -/
def kindName : Node → String
  | program .module .. => "Module"
  | program .script .. => "Script"
  | block .. => "BlockStatement"
  | declaration .. => "VariableDeclaration"
  | declarator .. => "VariableDeclarator"
  | importFrom .. => "ImportDeclaration"
  | importDefault .. => "ImportDefaultSpecifier"
  | importNamespace .. => "ImportNamespaceSpecifier"
  | importNamed .. => "ImportSpecifier"
  | string .. => "StringLiteral"
  | number .. => "NumericLiteral"
  | boolean .. => "BooleanLiteral"
  | null .. => "NullLiteral"
  | bigint .. => "BigIntLiteral"
  | regex .. => "RegExpLiteral"
  | identifier .. => "Identifier"
  | array .. => "ArrayExpression"
  | object .. => "ObjectExpression"
  | spread .. => "SpreadElement"
  | unary .. => "UnaryExpression"
  | binary .. => "BinaryExpression"
  | assignment .. => "AssignmentExpression"
  | defaulted .. => "AssignmentPattern"
  | member .. => "MemberExpression"
  | conditional .. => "ConditionalExpression"
  | call .. => "CallExpression"
  | template .. => "TemplateLiteral"
  | templatePart .. => "TemplateElement"
  | sequence .. => "SequenceExpression"
  | await .. => "AwaitExpression"
  | wrapped .parenthesis .. => "ParenthesisExpression"
  | wrapped .constAssertion .. => "TsConstAssertion"
  | wrapped .nonNull .. => "TsNonNullExpression"
  | wrapped .computed .. => "Computed"
  | cast .asType .. => "TsAsExpression"
  | cast .satisfies .. => "TsSatisfiesExpression"
  | cast .assertion .. => "TsTypeAssertion"
  | cast .instantiation .. => "TsInstantiation"
  | pair .property .. => "KeyValueProperty"
  | pair .assignment .. => "AssignmentProperty"
  | pair .pattern .. => "KeyValuePatternProperty"
  | shorthand .. => "AssignmentPatternProperty"
  | objectPattern .. => "ObjectPattern"
  | typeReference .. => "TsTypeReference"
  | qualifiedName .. => "TsQualifiedName"
  | typeArguments .. => "TsTypeParameterInstantiation"
  | typeLiteral .. => "TsTypeLiteral"
  | propertySignature .. => "TsPropertySignature"
  | declaredType .. => "TsTypeAnnotation"
  | unionType .. => "TsUnionType"
  | literalType .. => "TsLiteralType"
  | plain form .. => form.kindName

/-- The name of an identifier. -/
def identifierName? : Node → Option String
  | identifier _ name _ => some name
  | _ => none

/-- The value of a string literal. -/
def stringValue? : Node → Option String
  | string _ value => some value
  | _ => none

/-- The name an import or export specifier may use: an identifier or a string
literal. -/
def exportName? (node : Node) : Option String :=
  node.identifierName?.orElse fun _ => node.stringValue?

/-- References to the items of a list that are not holes. Holes are counted. -/
def itemsFrom {α : Type} (field : Field) : Nat → List (Option α) → List (ChildRef × α)
  | _, [] => []
  | index, none :: rest => itemsFrom field (index + 1) rest
  | index, some item :: rest => (.element field index, item) :: itemsFrom field (index + 1) rest

/-- The child in a single-valued field. -/
def oneChild {α : Type} (field : Field) (child : α) : List (ChildRef × α) :=
  [(.whole field, child)]

/-- The child in a field that may be empty. -/
def optionalChild {α : Type} (field : Field) : Option α → List (ChildRef × α)
  | some child => oneChild field child
  | none => []

/-- The children in a list. -/
def listChildren {α : Type} (field : Field) (items : List α) : List (ChildRef × α) :=
  itemsFrom field 0 (items.map some)

/-- The expressions of arguments, spread or not. -/
def argumentChildren {α : Type} (field : Field) (items : List (Argument α)) :
    List (ChildRef × α) :=
  itemsFrom field 0 (items.map fun argument => some argument.expression)

/-- The expressions of array elements. -/
def elementChildren {α : Type} (field : Field) (items : List (Option (Argument α))) :
    List (ChildRef × α) :=
  itemsFrom field 0 (items.map fun element => element.map Argument.expression)

/-- The children in a slot. -/
def slotChildren {α : Type} (field : Field) : Slot α → List (ChildRef × α)
  | .one child => optionalChild field child
  | .many items => itemsFrom field 0 items

/-- The children in a row of slots. -/
def slotsChildren {α : Type} : List (Field × Content) → List (Slot α) → List (ChildRef × α)
  | (field, _) :: fields, slot :: slots => slotChildren field slot ++ slotsChildren fields slots
  | _, _ => []

/-- The node's children in the order in which they are visited. -/
def children : Node → List (ChildRef × Node)
  | program _ _ body => listChildren .body body
  | block _ statements => listChildren .stmts statements
  | declaration _ _ declarations => listChildren .declarations declarations
  | declarator _ target init => optionalChild .init init ++ oneChild .id target
  | importFrom _ specifiers source asserts =>
      listChildren .specifiers specifiers ++ oneChild .source source ++
        optionalChild .asserts asserts
  | importDefault _ name => oneChild .localName name
  | importNamespace _ name => oneChild .localName name
  | importNamed _ name imported => oneChild .localName name ++ optionalChild .imported imported
  | string .. | number .. | boolean .. | null .. | bigint .. | regex .. | templatePart .. => []
  | identifier _ _ declared => optionalChild .declaredType declared
  | array _ elements => elementChildren .elements elements
  | object _ properties => listChildren .properties properties
  | spread _ argument => oneChild .arguments argument
  | unary _ _ argument => oneChild .argument argument
  | binary _ _ left right => oneChild .left left ++ oneChild .right right
  | assignment _ left right => oneChild .left left ++ oneChild .right right
  | defaulted _ left right => oneChild .left left ++ oneChild .right right
  | member _ target key => oneChild .object target ++ oneChild .property key
  | conditional _ test consequent alternate =>
      oneChild .test test ++ oneChild .consequent consequent ++ optionalChild .alternate alternate
  | call _ callee arguments typeArgs =>
      oneChild .callee callee ++ argumentChildren .arguments arguments ++
        optionalChild .typeArguments typeArgs
  | template _ quasis expressions types =>
      listChildren .quasis quasis ++ listChildren .expressions expressions ++
        listChildren .types types
  | sequence _ expressions => listChildren .expressions expressions
  | await _ argument => optionalChild .argument argument
  | wrapped _ _ expression => oneChild .expression expression
  | cast .instantiation _ expression _ typeArgs =>
      oneChild .expression expression ++ optionalChild .typeArguments typeArgs
  | cast _ _ expression declared _ =>
      oneChild .expression expression ++ optionalChild .declaredType declared
  | pair _ key value => oneChild .key key ++ oneChild .value value
  | shorthand _ key value => oneChild .key key ++ optionalChild .value value
  | objectPattern _ properties declared =>
      listChildren .properties properties ++ optionalChild .declaredType declared
  | typeReference _ name typeParams =>
      oneChild .typeName name ++ optionalChild .typeParams typeParams
  | qualifiedName _ left right => oneChild .left left ++ oneChild .right right
  | typeArguments _ params => listChildren .params params
  | typeLiteral _ members => listChildren .members members
  | propertySignature _ key declared =>
      oneChild .key key ++ optionalChild .declaredType declared
  | declaredType _ annotated => oneChild .declaredType annotated
  | unionType _ types => listChildren .types types
  | literalType _ literal => oneChild .literal literal
  | plain form _ slots _ => slotsChildren form.visited slots

end Node

end StyleSense
