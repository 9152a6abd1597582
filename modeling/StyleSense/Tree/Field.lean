/-
# Fields

The names of the fields that hold child nodes, over all kinds of nodes, and
references to single children. A reference to a whole field covers every
element of it.
-/

namespace StyleSense

/-- A field that holds child nodes. -/
inductive Field
  | alternate | argument | arguments | asserts | attributes | base | block | body | callee | cases
  | checkType | children | closing | consequent | constraint | decl | declaration | declarations
  | decorators | defaultType | discriminant | elemType | elemTypes | elements | exported
  | exprName | expression | expressions | extendsList | extendsType | falseType | finalizer
  | handler | id | identifier | implements | imported | indexType | init | key | label | left
  | literal | localName | members | moduleRef | name | nameType | spaceName | obj | object
  | objectType | opening | orig | param | paramName | parameters | params | pat | properties
  | property | qualifier | quasis | returnType | right | source | specifiers | stmts | superClass
  | superTypeParams | tag | template | test | trueType | ty | typeAnn | declaredType
  | typeArguments | typeName | typeParam | typeParameters | typeParams | types | update | value
  deriving DecidableEq, Repr

/-- The field's name in a serialized tree. -/
def Field.text : Field → String
  | .alternate => "alternate"
  | .argument => "argument"
  | .arguments => "arguments"
  | .asserts => "asserts"
  | .attributes => "attributes"
  | .base => "base"
  | .block => "block"
  | .body => "body"
  | .callee => "callee"
  | .cases => "cases"
  | .checkType => "checkType"
  | .children => "children"
  | .closing => "closing"
  | .consequent => "consequent"
  | .constraint => "constraint"
  | .decl => "decl"
  | .declaration => "declaration"
  | .declarations => "declarations"
  | .decorators => "decorators"
  | .defaultType => "default"
  | .discriminant => "discriminant"
  | .elemType => "elemType"
  | .elemTypes => "elemTypes"
  | .elements => "elements"
  | .exported => "exported"
  | .exprName => "exprName"
  | .expression => "expression"
  | .expressions => "expressions"
  | .extendsList => "extends"
  | .extendsType => "extendsType"
  | .falseType => "falseType"
  | .finalizer => "finalizer"
  | .handler => "handler"
  | .id => "id"
  | .identifier => "identifier"
  | .implements => "implements"
  | .imported => "imported"
  | .indexType => "indexType"
  | .init => "init"
  | .key => "key"
  | .label => "label"
  | .left => "left"
  | .literal => "literal"
  | .localName => "local"
  | .members => "members"
  | .moduleRef => "moduleRef"
  | .name => "name"
  | .nameType => "nameType"
  | .spaceName => "namespace"
  | .obj => "obj"
  | .object => "object"
  | .objectType => "objectType"
  | .opening => "opening"
  | .orig => "orig"
  | .param => "param"
  | .paramName => "paramName"
  | .parameters => "parameters"
  | .params => "params"
  | .pat => "pat"
  | .properties => "properties"
  | .property => "property"
  | .qualifier => "qualifier"
  | .quasis => "quasis"
  | .returnType => "returnType"
  | .right => "right"
  | .source => "source"
  | .specifiers => "specifiers"
  | .stmts => "stmts"
  | .superClass => "superClass"
  | .superTypeParams => "superTypeParams"
  | .tag => "tag"
  | .template => "template"
  | .test => "test"
  | .trueType => "trueType"
  | .ty => "ty"
  | .typeAnn => "typeAnn"
  | .declaredType => "typeAnnotation"
  | .typeArguments => "typeArguments"
  | .typeName => "typeName"
  | .typeParam => "typeParam"
  | .typeParameters => "typeParameters"
  | .typeParams => "typeParams"
  | .types => "types"
  | .update => "update"
  | .value => "value"

/-- One child of a node: a single-valued field, or an element of a list. -/
structure ChildRef where
  field : Field
  index : Option Nat
  deriving DecidableEq, Repr

namespace ChildRef

/-- A field as a whole, or a single-valued field. -/
def whole (field : Field) : ChildRef := ⟨field, none⟩

/-- One element of a list. -/
def element (field : Field) (index : Nat) : ChildRef := ⟨field, some index⟩

/-- Whether suppressing `a` suppresses the child `b`. -/
def covers (a b : ChildRef) : Bool :=
  a.field = b.field && (a.index.isNone || a.index = b.index)

/-- The field's name, with the element's index behind a point. -/
def text (r : ChildRef) : String :=
  match r.index with
  | some index => r.field.text ++ "." ++ toString index
  | none => r.field.text

end ChildRef

/-- Every field, for reading its name. -/
def Field.all : List Field :=
  [.alternate, .argument, .arguments, .asserts, .attributes, .base, .block, .body, .callee,
    .cases, .checkType, .children, .closing, .consequent, .constraint, .decl, .declaration,
    .declarations, .decorators, .defaultType, .discriminant, .elemType, .elemTypes, .elements,
    .exported, .exprName, .expression, .expressions, .extendsList, .extendsType, .falseType,
    .finalizer, .handler, .id, .identifier, .implements, .imported, .indexType, .init, .key,
    .label, .left, .literal, .localName, .members, .moduleRef, .name, .nameType, .spaceName, .obj,
    .object, .objectType, .opening, .orig, .param, .paramName, .parameters, .params, .pat,
    .properties, .property, .qualifier, .quasis, .returnType, .right, .source, .specifiers,
    .stmts, .superClass, .superTypeParams, .tag, .template, .test, .trueType, .ty, .typeAnn,
    .declaredType, .typeArguments, .typeName, .typeParam, .typeParameters, .typeParams, .types,
    .update, .value]

/-- The field of this name. -/
def Field.ofName? (name : String) : Option Field :=
  Field.all.find? (·.text = name)

end StyleSense
