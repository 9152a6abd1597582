/-
# Reading trees

A serialized tree gives every node as an object with a `type`. Any other field
may be missing and then takes its default: no place, nothing, an empty list, an
invalid node. Fields that a kind does not know are passed over, whatever they
hold; fields that it knows are checked, even those that are not kept, and may
not come twice.

Everything that is an object may also be an array of its fields without their
names, a node with its kind in front. Fields at the end may be left out.
-/

import StyleSense.Tree.Node
import StyleSense.Json.Reader
import StyleSense.Json.Record

namespace StyleSense

namespace Tree

/-- What was read from one field. -/
inductive Held
  | absent
  | node (node : Node)
  | nodes (items : List (Option Node))
  | arguments (items : List (Option (Argument Node)))
  | span (span : Span)
  | text (text : String)
  | flag (flag : Bool)
  | number (number : Float)

/-- The fields that were read, by name. -/
abbrev Record := List (String × Held)

namespace Record

/-- The field of this name. -/
def held (r : Record) (name : String) : Held :=
  match r.find? (·.1 = name) with
  | some (_, held) => held
  | none => .absent

/-- A node that may be absent. -/
def node? (r : Record) (name : String) : Option Node :=
  match r.held name with
  | .node node => some node
  | _ => none

/-- A required node. -/
def node (r : Record) (name : String) : Node :=
  (r.node? name).getD Node.invalid

/-- A list of nodes with holes. -/
def holes (r : Record) (name : String) : List (Option Node) :=
  match r.held name with
  | .nodes items => items
  | _ => []

/-- A list of nodes. -/
def nodes (r : Record) (name : String) : List Node :=
  (r.holes name).filterMap id

/-- A list of array elements. -/
def elements (r : Record) (name : String) : List (Option (Argument Node)) :=
  match r.held name with
  | .arguments items => items
  | _ => []

/-- A list of arguments. -/
def arguments (r : Record) (name : String) : List (Argument Node) :=
  (r.elements name).filterMap id

/-- The place of the node. -/
def span (r : Record) : Span :=
  match r.held "span" with
  | .span span => span
  | _ => Span.none

/-- A text that may be absent. -/
def text? (r : Record) (name : String) : Option String :=
  match r.held name with
  | .text text => some text
  | _ => none

/-- A text. -/
def text (r : Record) (name : String) : String :=
  (r.text? name).getD ""

/-- A flag. -/
def flag (r : Record) (name : String) : Bool :=
  match r.held name with
  | .flag flag => flag
  | _ => false

/-- A number. -/
def number (r : Record) (name : String) : Float :=
  match r.held name with
  | .number number => number
  | _ => 0

/-- The argument whose fields were read. -/
def argument (r : Record) : Argument Node :=
  ⟨match r.held "spread" with
    | .span span => some span
    | _ => none,
    r.node "expression"⟩

/-- The slot that a field of a plain node fills. -/
def slot (r : Record) : Field × Content → Slot Node
  | (field, .child) => .one (some (r.node field.text))
  | (field, .optional) => .one (r.node? field.text)
  | (field, .optionalArguments) =>
      .many ((r.arguments field.text).map fun argument => some argument.expression)
  | (field, _) => .many (r.holes field.text)

end Record

/-- How the nodes of one kind are read. -/
structure Blueprint where
  tag : String
  fields : List (String × Content)
  build : Record → Node

namespace Blueprint

/-- A kind with a constructor of its own and a place of its own. -/
def spanned (tag : String) (fields : List (String × Content)) (build : Record → Node) :
    Blueprint :=
  ⟨tag, ("span", .span) :: fields, build⟩

/-- The fields of a plain form, in the order of an array. Methods of classes keep
most of their fields in a function record. -/
def formFields (form : Form) : List (String × Content) :=
  let slots := (form.visited ++ form.unvisited).map fun (field, content) => (field.text, content)
  let own := match form with
    | .classMethod | .privateMethod => [("key", .child), ("function", .function)]
    | _ => slots
  let fields := own ++ form.attributes
  (form.leading.filterMap fun name => fields.find? (·.1 = name)) ++
    fields.filter fun field => !form.leading.contains field.1

/-- A plain form. -/
def ofForm (form : Form) : Blueprint :=
  spanned form.tag (formFields form) fun r =>
    .plain form r.span (form.visited.map r.slot) (form.unvisited.map r.slot)

/-- A source file. -/
def program (tag : String) (type : SourceType) : Blueprint :=
  spanned tag [("body", .list), ("interpreter", .optionalText)] fun r =>
    .program type r.span (r.nodes "body")

/-- A specifier that only names a local. -/
def localSpecifier (tag : String) (build : Span → Node → Node) : Blueprint :=
  spanned tag [("local", .child)] fun r => build r.span (r.node "local")

/-- Two nodes with an operator between them. -/
def infixed (tag : String) (build : Span → String → Node → Node → Node) : Blueprint :=
  spanned tag [("operator", .text), ("left", .child), ("right", .child)] fun r =>
    build r.span (r.text "operator") (r.node "left") (r.node "right")

/-- An expression that encloses another. -/
def wrapped (tag : String) (wrapper : Wrapper) : Blueprint :=
  spanned tag [("expression", .child)] fun r => .wrapped wrapper r.span (r.node "expression")

/-- An expression with a type beside it. -/
def cast (tag : String) (kind : Cast) : Blueprint :=
  spanned tag
    [("expression", .child), ("typeAnnotation", .optional), ("typeArguments", .optional)]
    fun r => .cast kind r.span (r.node "expression") (r.node? "typeAnnotation")
      (r.node? "typeArguments")

/-- A pair, which has no place of its own. -/
def pair (tag : String) (kind : PairKind) : Blueprint :=
  ⟨tag, [("key", .child), ("value", .child)], fun r => .pair kind (r.node "key") (r.node "value")⟩

/-- Every kind. -/
def all : List Blueprint :=
  [program "Module" .module, program "Script" .script,
    spanned "BlockStatement" [("stmts", .list)] fun r => .block r.span (r.nodes "stmts"),
    ofForm .expressionStatement, ofForm .emptyStatement, ofForm .debuggerStatement,
    ofForm .withStatement, ofForm .returnStatement, ofForm .labeledStatement,
    ofForm .breakStatement, ofForm .continueStatement, ofForm .ifStatement,
    ofForm .switchStatement, ofForm .switchCase, ofForm .throwStatement, ofForm .tryStatement,
    ofForm .catchClause, ofForm .whileStatement, ofForm .doWhileStatement, ofForm .forStatement,
    ofForm .forInStatement, ofForm .forOfStatement,
    spanned "VariableDeclaration"
      [("kind", .text), ("declare", .flag), ("declarations", .list)]
      fun r => .declaration r.span (r.text "kind") (r.nodes "declarations"),
    spanned "VariableDeclarator" [("id", .child), ("init", .optional), ("definite", .flag)]
      fun r => .declarator r.span (r.node "id") (r.node? "init"),
    ofForm .functionDeclaration, ofForm .functionExpression, ofForm .arrowFunctionExpression,
    ofForm .classDeclaration, ofForm .classExpression, ofForm .constructor, ofForm .classMethod,
    ofForm .privateMethod, ofForm .classProperty, ofForm .privateProperty, ofForm .staticBlock,
    ofForm .parameter, ofForm .decorator,
    spanned "StringLiteral" [("value", .text), ("raw", .optionalText)]
      fun r => .string r.span (r.text "value"),
    spanned "NumericLiteral" [("value", .number), ("raw", .optionalText)]
      fun r => .number r.span (r.number "value"),
    spanned "BooleanLiteral" [("value", .flag)] fun r => .boolean r.span (r.flag "value"),
    spanned "NullLiteral" [] fun r => .null r.span,
    spanned "BigIntLiteral" [("raw", .optionalText)] fun r => .bigint r.span (r.text? "raw"),
    spanned "RegExpLiteral" [("pattern", .text), ("flags", .text)]
      fun r => .regex r.span (r.text "pattern") (r.text "flags"),
    spanned "Identifier" [("value", .text), ("optional", .flag), ("typeAnnotation", .optional)]
      fun r => .identifier r.span (r.text "value") (r.node? "typeAnnotation"),
    ofForm .privateName, ofForm .thisExpression, ofForm .superKeyword, ofForm .importKeyword,
    spanned "ArrayExpression" [("elements", .elements)]
      fun r => .array r.span (r.elements "elements"),
    spanned "ObjectExpression" [("properties", .list)]
      fun r => .object r.span (r.nodes "properties"),
    spanned "SpreadElement" [("arguments", .child)]
      fun r => .spread r.span (r.node "arguments"),
    spanned "UnaryExpression" [("operator", .text), ("argument", .child)]
      fun r => .unary r.span (r.text "operator") (r.node "argument"),
    ofForm .updateExpression,
    infixed "BinaryExpression" .binary,
    infixed "AssignmentExpression" fun span _ left right => .assignment span left right,
    spanned "MemberExpression" [("object", .child), ("property", .child)]
      fun r => .member r.span (r.node "object") (r.node "property"),
    ofForm .superPropExpression,
    spanned "ConditionalExpression"
      [("test", .child), ("consequent", .child), ("alternate", .optional)]
      fun r => .conditional r.span (r.node "test") (r.node "consequent") (r.node? "alternate"),
    spanned "CallExpression"
      [("callee", .child), ("arguments", .arguments), ("typeArguments", .optional)]
      fun r => .call r.span (r.node "callee") (r.arguments "arguments")
        (r.node? "typeArguments"),
    ofForm .newExpression,
    spanned "SequenceExpression" [("expressions", .list)]
      fun r => .sequence r.span (r.nodes "expressions"),
    ofForm .yieldExpression,
    spanned "AwaitExpression" [("argument", .optional), ("delegate", .flag)]
      fun r => .await r.span (r.node? "argument"),
    ofForm .metaProperty,
    spanned "TemplateLiteral" [("quasis", .list), ("expressions", .list), ("types", .list)]
      fun r => .template r.span (r.nodes "quasis") (r.nodes "expressions") (r.nodes "types"),
    spanned "TemplateElement" [("tail", .flag), ("cooked", .optionalText), ("raw", .text)]
      fun r => .templatePart r.span (r.text? "cooked") (r.text "raw"),
    ofForm .taggedTemplateExpression,
    wrapped "ParenthesisExpression" .parenthesis,
    ofForm .optionalChainingExpression,
    cast "TsAsExpression" .asType, cast "TsSatisfiesExpression" .satisfies,
    cast "TsTypeAssertion" .assertion, cast "TsInstantiation" .instantiation,
    wrapped "TsConstAssertion" .constAssertion, wrapped "TsNonNullExpression" .nonNull,
    ofForm .invalid, ofForm .jsxElement, ofForm .jsxFragment, ofForm .jsxOpeningElement,
    ofForm .jsxClosingElement, ofForm .jsxOpeningFragment, ofForm .jsxClosingFragment,
    ofForm .jsxAttribute, ofForm .jsxMemberExpression, ofForm .jsxNamespacedName,
    ofForm .jsxEmptyExpression, ofForm .jsxExpressionContainer, ofForm .jsxSpreadChild,
    ofForm .jsxText,
    spanned "ImportDeclaration"
      [("specifiers", .list), ("source", .child), ("typeOnly", .flag), ("asserts", .optional)]
      fun r => .importFrom r.span (r.nodes "specifiers") (r.node "source") (r.node? "asserts"),
    localSpecifier "ImportDefaultSpecifier" .importDefault,
    localSpecifier "ImportNamespaceSpecifier" .importNamespace,
    spanned "ImportSpecifier" [("local", .child), ("imported", .optional), ("isTypeOnly", .flag)]
      fun r => .importNamed r.span (r.node "local") (r.node? "imported"),
    ofForm .exportDeclaration, ofForm .exportNamedDeclaration, ofForm .exportAllDeclaration,
    ofForm .exportDefaultDeclaration, ofForm .exportDefaultExpression, ofForm .exportSpecifier,
    ofForm .exportNamespaceSpecifier, ofForm .exportDefaultSpecifier, ofForm .arrayPattern,
    spanned "ObjectPattern"
      [("properties", .list), ("optional", .flag), ("typeAnnotation", .optional)]
      fun r => .objectPattern r.span (r.nodes "properties") (r.node? "typeAnnotation"),
    infixed "AssignmentPattern" fun span _ left right => .defaulted span left right,
    ofForm .restElement,
    pair "KeyValuePatternProperty" .pattern,
    spanned "AssignmentPatternProperty" [("key", .child), ("value", .optional)]
      fun r => .shorthand r.span (r.node "key") (r.node? "value"),
    pair "KeyValueProperty" .property, pair "AssignmentProperty" .assignment,
    ofForm .getterProperty, ofForm .setterProperty, ofForm .methodProperty,
    wrapped "Computed" .computed,
    spanned "TsTypeAnnotation" [("typeAnnotation", .child)]
      fun r => .declaredType r.span (r.node "typeAnnotation"),
    ofForm .tsTypeParameterDeclaration, ofForm .tsTypeParameter,
    spanned "TsTypeParameterInstantiation" [("params", .list)]
      fun r => .typeArguments r.span (r.nodes "params"),
    ofForm .tsParameterProperty,
    spanned "TsQualifiedName" [("left", .child), ("right", .child)]
      fun r => .qualifiedName r.span (r.node "left") (r.node "right"),
    ofForm .tsCallSignatureDeclaration, ofForm .tsConstructSignatureDeclaration,
    spanned "TsPropertySignature"
      [("key", .child), ("computed", .flag), ("optional", .flag), ("typeAnnotation", .optional)]
      fun r => .propertySignature r.span (r.node "key") (r.node? "typeAnnotation"),
    ofForm .tsGetterSignature, ofForm .tsSetterSignature, ofForm .tsMethodSignature,
    ofForm .tsIndexSignature, ofForm .tsKeywordType, ofForm .tsThisType, ofForm .tsFunctionType,
    ofForm .tsConstructorType,
    spanned "TsTypeReference" [("typeName", .child), ("typeParams", .optional)]
      fun r => .typeReference r.span (r.node "typeName") (r.node? "typeParams"),
    ofForm .tsTypePredicate, ofForm .tsImportType, ofForm .tsTypeQuery,
    spanned "TsTypeLiteral" [("members", .list)]
      fun r => .typeLiteral r.span (r.nodes "members"),
    ofForm .tsArrayType, ofForm .tsTupleType, ofForm .tsTupleElement, ofForm .tsOptionalType,
    ofForm .tsRestType,
    spanned "TsUnionType" [("types", .list)] fun r => .unionType r.span (r.nodes "types"),
    ofForm .tsIntersectionType, ofForm .tsConditionalType, ofForm .tsInferType,
    ofForm .tsParenthesizedType, ofForm .tsTypeOperator, ofForm .tsIndexedAccessType,
    ofForm .tsMappedType,
    spanned "TsLiteralType" [("literal", .child)]
      fun r => .literalType r.span (r.node "literal"),
    ofForm .tsInterfaceDeclaration, ofForm .tsInterfaceBody,
    ofForm .tsExpressionWithTypeArguments, ofForm .tsTypeAliasDeclaration,
    ofForm .tsEnumDeclaration, ofForm .tsEnumMember, ofForm .tsModuleDeclaration,
    ofForm .tsModuleBlock, ofForm .tsNamespaceDeclaration, ofForm .tsImportEqualsDeclaration,
    ofForm .tsExternalModuleReference, ofForm .tsExportAssignment,
    ofForm .tsNamespaceExportDeclaration]

/-- The fields of a function record. -/
def functionFields : List (String × Content) :=
  [("span", .span), ("identifier", .optional), ("params", .list), ("decorators", .list),
    ("body", .optional), ("async", .flag), ("generator", .flag), ("typeParameters", .optional),
    ("returnType", .optional)]

/-- The fields of an argument. -/
def argumentFields : List (String × Content) :=
  [("spread", .optionalSpan), ("expression", .child)]

/-- The kind of this tag. Below the root it may also be given by its number in the
table. -/
def ofTag? (nested : Bool) : Json → Option Blueprint
  | .string tag => all.find? (·.tag = tag)
  | .number (.integer index) => if nested && 0 ≤ index then all[index.toNat]? else none
  | _ => none

/-- The kind an object names in its `type`, which must come exactly once. -/
def ofFields? (nested : Bool) (fields : List (String × Json)) : Option Blueprint :=
  match fields.filter (·.1 = "type") with
  | [(_, tag)] => ofTag? nested tag
  | _ => none

end Blueprint

/-- Whether a known field comes twice. -/
def repeats (known : List (String × Content)) : List (String × Json) → Bool
  | [] => false
  | (name, _) :: rest =>
      (known.any (·.1 = name) && rest.any (·.1 = name)) || repeats known rest

/-- A place: both ends, as unsigned 32-bit integers. -/
def readSpan? (value : Json) : Option Span := do
  let fields ← Json.record? ["start", "end"] value
  let start ← Json.required? Json.asWord? "start" fields
  let stop ← Json.required? Json.asWord? "end" fields
  some ⟨start, stop⟩

/-- A field that holds no nodes. -/
def readScalar? : Content → Json → Option Held
  | .span, value => (readSpan? value).map .span
  | .optionalSpan, .null => some .absent
  | .optionalSpan, value => (readSpan? value).map .span
  | .text, .string text => some (.text text)
  | .optionalText, .string text => some (.text text)
  | .optionalText, .null => some .absent
  | .flag, .bool flag => some (.flag flag)
  | .number, value => value.asFloat?.map .number
  | _, _ => none

/-- What a value is, read as one thing or another. None of it is read before a
field asks for it. -/
structure Reading where
  node : Unit → Option Node
  list : Bool → Option (List (Option Node))
  arguments : Bool → Option (List (Option (Argument Node)))
  function : Unit → Option Record

/-- What a field adds to the record. -/
def Reading.field? (reading : Reading) (name : String) (value : Json) : Content → Option Record
  | .child => (reading.node ()).map fun node => [(name, .node node)]
  | .optional =>
      match value with
      | .null => some []
      | _ => (reading.node ()).map fun node => [(name, .node node)]
  | .list => (reading.list false).map fun items => [(name, .nodes items)]
  | .holes => (reading.list true).map fun items => [(name, .nodes items)]
  | .arguments => (reading.arguments false).map fun items => [(name, .arguments items)]
  | .optionalArguments =>
      match value with
      | .null => some []
      | _ => (reading.arguments false).map fun items => [(name, .arguments items)]
  | .elements => (reading.arguments true).map fun items => [(name, .arguments items)]
  | .function => (reading.function ()).map fun inner => inner.filter (·.1 ≠ "span")
  | content => (readScalar? content value).map fun held => [(name, held)]

mutual
/-- A node. -/
def readNode? (nested : Bool) : Json → Option Node
  | .object fields =>
      match Blueprint.ofFields? nested fields with
      | none => none
      | some blueprint =>
          if repeats blueprint.fields fields then none
          else (readFields? blueprint.fields fields).map blueprint.build
  | .array (tag :: items) =>
      match Blueprint.ofTag? nested tag with
      | none => none
      | some blueprint => (readPositions? blueprint.fields items).map blueprint.build
  | _ => none

/-- A record without a kind. -/
def readRecord? (known : List (String × Content)) : Json → Option Record
  | .object fields => if repeats known fields then none else readFields? known fields
  | .array items => readPositions? known items
  | _ => none

/-- The known ones among an object's fields. -/
def readFields? (known : List (String × Content)) : List (String × Json) → Option Record
  | [] => some []
  | (name, value) :: rest =>
      match known.find? (·.1 = name), readFields? known rest with
      | _, none => none
      | none, some record => some record
      | some (_, content), some record =>
          let reading : Reading :=
            { node _ := readNode? true value
              list holes := readList? holes value
              arguments holes := readArguments? holes value
              function _ := readRecord? Blueprint.functionFields value }
          (reading.field? name value content).map (· ++ record)

/-- Fields without their names. -/
def readPositions? : List (String × Content) → List Json → Option Record
  | _, [] => some []
  | [], _ :: _ => none
  | (name, content) :: known, value :: rest =>
      match readPositions? known rest with
      | none => none
      | some record =>
          let reading : Reading :=
            { node _ := readNode? true value
              list holes := readList? holes value
              arguments holes := readArguments? holes value
              function _ := readRecord? Blueprint.functionFields value }
          (reading.field? name value content).map (· ++ record)

/-- A list of nodes, perhaps with holes. -/
def readList? (holes : Bool) : Json → Option (List (Option Node))
  | .array items => readItems? holes items
  | _ => none

/-- The items of a list. -/
def readItems? (holes : Bool) : List Json → Option (List (Option Node))
  | [] => some []
  | item :: rest =>
      match item with
      | .null => if holes then (readItems? holes rest).map (none :: ·) else none
      | _ =>
          match readNode? true item, readItems? holes rest with
          | some node, some nodes => some (some node :: nodes)
          | _, _ => none

/-- A list of arguments, perhaps with holes. -/
def readArguments? (holes : Bool) : Json → Option (List (Option (Argument Node)))
  | .array items => readArgumentItems? holes items
  | _ => none

/-- The items of an argument list. -/
def readArgumentItems? (holes : Bool) : List Json → Option (List (Option (Argument Node)))
  | [] => some []
  | item :: rest =>
      match item with
      | .null => if holes then (readArgumentItems? holes rest).map (none :: ·) else none
      | _ =>
          match readRecord? Blueprint.argumentFields item, readArgumentItems? holes rest with
          | some record, some arguments => some (some record.argument :: arguments)
          | _, _ => none
end

end Tree

namespace Node

/-- The tree that a JSON value serializes. -/
def ofJson? (value : Json) : Option Node :=
  Tree.readNode? false value

/-- The tree that a JSON text serializes. -/
def ofText? (text : String) : Option Node :=
  (Json.ofReadableText? text).bind ofJson?

/-- What is reported when a tree cannot be read. -/
def unreadable : String :=
  "Failed to decode syntax tree JSON"

end Node

end StyleSense
