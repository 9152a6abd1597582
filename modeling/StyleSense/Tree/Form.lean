/-
# Plain forms

Most kinds of nodes matter only for what they hold. They share one shape: a
form, which names the kind, and a slot for each field that the form's table
lists. The table gives the fields in the order in which they are visited; a few
fields are held but not visited.
-/

import StyleSense.Tree.Field

namespace StyleSense

/-- What a field of a serialized node may hold. -/
inductive Content
  /-- A node. -/
  | child
  /-- A node or nothing. -/
  | optional
  /-- Nodes. -/
  | list
  /-- Nodes with holes. -/
  | holes
  /-- Arguments, each perhaps spread. -/
  | arguments
  /-- Arguments, or nothing. -/
  | optionalArguments
  /-- Array elements: arguments with holes. -/
  | elements
  | span
  /-- A place or nothing. -/
  | optionalSpan
  | text
  | optionalText
  | flag
  | number
  /-- A function without a kind, whose fields count as the node's own. -/
  | function
  deriving DecidableEq, Repr

/-- A kind of node that only its children describe. -/
inductive Form
  | expressionStatement | emptyStatement | debuggerStatement | withStatement | returnStatement
  | labeledStatement | breakStatement | continueStatement | ifStatement | switchStatement
  | switchCase | throwStatement | tryStatement | catchClause | whileStatement | doWhileStatement
  | forStatement | forInStatement | forOfStatement | functionDeclaration | functionExpression
  | arrowFunctionExpression | classDeclaration | classExpression | constructor | classMethod
  | privateMethod | classProperty | privateProperty | staticBlock | parameter | decorator
  | privateName | thisExpression | superKeyword | importKeyword | updateExpression
  | superPropExpression | newExpression | yieldExpression | metaProperty
  | taggedTemplateExpression | optionalChainingExpression | invalid | jsxElement | jsxFragment
  | jsxOpeningElement | jsxClosingElement | jsxOpeningFragment | jsxClosingFragment | jsxAttribute
  | jsxMemberExpression | jsxNamespacedName | jsxEmptyExpression | jsxExpressionContainer
  | jsxSpreadChild | jsxText | exportDeclaration | exportNamedDeclaration | exportAllDeclaration
  | exportDefaultDeclaration | exportDefaultExpression | exportSpecifier
  | exportNamespaceSpecifier | exportDefaultSpecifier | arrayPattern | restElement
  | getterProperty | setterProperty | methodProperty | tsTypeParameterDeclaration
  | tsTypeParameter | tsParameterProperty | tsCallSignatureDeclaration
  | tsConstructSignatureDeclaration | tsGetterSignature | tsSetterSignature | tsMethodSignature
  | tsIndexSignature | tsKeywordType | tsThisType | tsFunctionType | tsConstructorType
  | tsTypePredicate | tsImportType | tsTypeQuery | tsArrayType | tsTupleType | tsTupleElement
  | tsOptionalType | tsRestType | tsIntersectionType | tsConditionalType | tsInferType
  | tsParenthesizedType | tsTypeOperator | tsIndexedAccessType | tsMappedType
  | tsInterfaceDeclaration | tsInterfaceBody | tsExpressionWithTypeArguments
  | tsTypeAliasDeclaration | tsEnumDeclaration | tsEnumMember | tsModuleDeclaration
  | tsModuleBlock | tsNamespaceDeclaration | tsImportEqualsDeclaration | tsExternalModuleReference
  | tsExportAssignment | tsNamespaceExportDeclaration
  deriving DecidableEq, Repr

namespace Form

/-- The name of the kind. -/
def kindName : Form → String
  | .expressionStatement => "ExpressionStatement"
  | .emptyStatement => "EmptyStatement"
  | .debuggerStatement => "DebuggerStatement"
  | .withStatement => "WithStatement"
  | .returnStatement => "ReturnStatement"
  | .labeledStatement => "LabeledStatement"
  | .breakStatement => "BreakStatement"
  | .continueStatement => "ContinueStatement"
  | .ifStatement => "IfStatement"
  | .switchStatement => "SwitchStatement"
  | .switchCase => "SwitchCase"
  | .throwStatement => "ThrowStatement"
  | .tryStatement => "TryStatement"
  | .catchClause => "CatchClause"
  | .whileStatement => "WhileStatement"
  | .doWhileStatement => "DoWhileStatement"
  | .forStatement => "ForStatement"
  | .forInStatement => "ForInStatement"
  | .forOfStatement => "ForOfStatement"
  | .functionDeclaration => "FunctionDeclaration"
  | .functionExpression => "FunctionExpression"
  | .arrowFunctionExpression => "ArrowFunctionExpression"
  | .classDeclaration => "ClassDeclaration"
  | .classExpression => "ClassExpression"
  | .constructor => "Constructor"
  | .classMethod => "ClassMethod"
  | .privateMethod => "PrivateMethod"
  | .classProperty => "ClassProperty"
  | .privateProperty => "PrivateProperty"
  | .staticBlock => "StaticBlock"
  | .parameter => "Parameter"
  | .decorator => "Decorator"
  | .privateName => "PrivateName"
  | .thisExpression => "ThisExpression"
  | .superKeyword => "Super"
  | .importKeyword => "Import"
  | .updateExpression => "UpdateExpression"
  | .superPropExpression => "SuperPropExpression"
  | .newExpression => "NewExpression"
  | .yieldExpression => "YieldExpression"
  | .metaProperty => "MetaProperty"
  | .taggedTemplateExpression => "TaggedTemplateExpression"
  | .optionalChainingExpression => "OptionalChainingExpression"
  | .invalid => "Invalid"
  | .jsxElement => "JsxElement"
  | .jsxFragment => "JsxFragment"
  | .jsxOpeningElement => "JsxOpeningElement"
  | .jsxClosingElement => "JsxClosingElement"
  | .jsxOpeningFragment => "JsxOpeningFragment"
  | .jsxClosingFragment => "JsxClosingFragment"
  | .jsxAttribute => "JsxAttribute"
  | .jsxMemberExpression => "JsxMemberExpression"
  | .jsxNamespacedName => "JsxNamespacedName"
  | .jsxEmptyExpression => "JsxEmptyExpression"
  | .jsxExpressionContainer => "JsxExpressionContainer"
  | .jsxSpreadChild => "JsxSpreadChild"
  | .jsxText => "JsxText"
  | .exportDeclaration => "ExportDeclaration"
  | .exportNamedDeclaration => "ExportNamedDeclaration"
  | .exportAllDeclaration => "ExportAllDeclaration"
  | .exportDefaultDeclaration => "ExportDefaultDeclaration"
  | .exportDefaultExpression => "ExportDefaultExpression"
  | .exportSpecifier => "ExportSpecifier"
  | .exportNamespaceSpecifier => "ExportNamespaceSpecifier"
  | .exportDefaultSpecifier => "ExportDefaultSpecifier"
  | .arrayPattern => "ArrayPattern"
  | .restElement => "RestElement"
  | .getterProperty => "GetterProperty"
  | .setterProperty => "SetterProperty"
  | .methodProperty => "MethodProperty"
  | .tsTypeParameterDeclaration => "TsTypeParameterDeclaration"
  | .tsTypeParameter => "TsTypeParameter"
  | .tsParameterProperty => "TsParameterProperty"
  | .tsCallSignatureDeclaration => "TsCallSignatureDeclaration"
  | .tsConstructSignatureDeclaration => "TsConstructSignatureDeclaration"
  | .tsGetterSignature => "TsGetterSignature"
  | .tsSetterSignature => "TsSetterSignature"
  | .tsMethodSignature => "TsMethodSignature"
  | .tsIndexSignature => "TsIndexSignature"
  | .tsKeywordType => "TsKeywordType"
  | .tsThisType => "TsThisType"
  | .tsFunctionType => "TsFunctionType"
  | .tsConstructorType => "TsConstructorType"
  | .tsTypePredicate => "TsTypePredicate"
  | .tsImportType => "TsImportType"
  | .tsTypeQuery => "TsTypeQuery"
  | .tsArrayType => "TsArrayType"
  | .tsTupleType => "TsTupleType"
  | .tsTupleElement => "TsTupleElement"
  | .tsOptionalType => "TsOptionalType"
  | .tsRestType => "TsRestType"
  | .tsIntersectionType => "TsIntersectionType"
  | .tsConditionalType => "TsConditionalType"
  | .tsInferType => "TsInferType"
  | .tsParenthesizedType => "TsParenthesizedType"
  | .tsTypeOperator => "TsTypeOperator"
  | .tsIndexedAccessType => "TsIndexedAccessType"
  | .tsMappedType => "TsMappedType"
  | .tsInterfaceDeclaration => "TsInterfaceDeclaration"
  | .tsInterfaceBody => "TsInterfaceBody"
  | .tsExpressionWithTypeArguments => "TsExpressionWithTypeArguments"
  | .tsTypeAliasDeclaration => "TsTypeAliasDeclaration"
  | .tsEnumDeclaration => "TsEnumDeclaration"
  | .tsEnumMember => "TsEnumMember"
  | .tsModuleDeclaration => "TsModuleDeclaration"
  | .tsModuleBlock => "TsModuleBlock"
  | .tsNamespaceDeclaration => "TsNamespaceDeclaration"
  | .tsImportEqualsDeclaration => "TsImportEqualsDeclaration"
  | .tsExternalModuleReference => "TsExternalModuleReference"
  | .tsExportAssignment => "TsExportAssignment"
  | .tsNamespaceExportDeclaration => "TsNamespaceExportDeclaration"

/-- The fields in the order in which they are visited. -/
def visited : Form → List (Field × Content)
  | .expressionStatement | .decorator | .jsxExpressionContainer | .jsxSpreadChild
  | .exportDefaultExpression | .tsExternalModuleReference | .tsExportAssignment =>
      [(.expression, .child)]
  | .withStatement =>
      [(.object, .child), (.body, .child)]
  | .returnStatement | .throwStatement | .yieldExpression =>
      [(.argument, .optional)]
  | .labeledStatement =>
      [(.label, .child), (.body, .child)]
  | .breakStatement | .continueStatement =>
      [(.label, .optional)]
  | .ifStatement =>
      [(.test, .child), (.consequent, .child), (.alternate, .optional)]
  | .switchStatement =>
      [(.discriminant, .child), (.cases, .list)]
  | .switchCase =>
      [(.test, .optional), (.consequent, .list)]
  | .tryStatement =>
      [(.block, .child), (.handler, .optional), (.finalizer, .optional)]
  | .catchClause =>
      [(.param, .optional), (.body, .child)]
  | .whileStatement | .doWhileStatement =>
      [(.test, .child), (.body, .child)]
  | .forStatement =>
      [(.init, .optional), (.test, .optional), (.update, .optional), (.body, .child)]
  | .forInStatement | .forOfStatement =>
      [(.left, .child), (.right, .child), (.body, .child)]
  | .functionDeclaration | .functionExpression =>
      [(.identifier, .optional), (.body, .optional), (.params, .list),
       (.typeParameters, .optional), (.returnType, .optional), (.decorators, .list)]
  | .arrowFunctionExpression =>
      [(.params, .list), (.body, .child), (.typeParameters, .optional), (.returnType, .optional)]
  | .classDeclaration | .classExpression =>
      [(.body, .list), (.identifier, .optional), (.superClass, .optional),
       (.typeParams, .optional), (.superTypeParams, .optional), (.implements, .list)]
  | .constructor =>
      [(.key, .child), (.params, .list), (.body, .optional)]
  | .classMethod | .privateMethod =>
      [(.body, .optional), (.params, .list), (.typeParameters, .optional),
       (.returnType, .optional), (.decorators, .list), (.key, .child)]
  | .classProperty | .privateProperty =>
      [(.value, .optional), (.declaredType, .optional), (.key, .child)]
  | .staticBlock =>
      [(.body, .child)]
  | .parameter =>
      [(.decorators, .list), (.pat, .child)]
  | .privateName =>
      [(.id, .optional)]
  | .updateExpression =>
      [(.argument, .child)]
  | .superPropExpression =>
      [(.obj, .child), (.property, .child)]
  | .newExpression =>
      [(.callee, .child), (.arguments, .optionalArguments), (.typeArguments, .optional)]
  | .taggedTemplateExpression =>
      [(.tag, .child), (.template, .child), (.typeParameters, .optional)]
  | .optionalChainingExpression =>
      [(.base, .child)]
  | .jsxElement | .jsxFragment =>
      [(.opening, .child), (.children, .list), (.closing, .optional)]
  | .jsxOpeningElement =>
      [(.name, .child), (.attributes, .list), (.typeArguments, .optional)]
  | .jsxClosingElement | .exportNamespaceSpecifier =>
      [(.name, .child)]
  | .jsxAttribute =>
      [(.name, .child), (.value, .optional)]
  | .jsxMemberExpression =>
      [(.object, .child), (.property, .child)]
  | .jsxNamespacedName =>
      [(.spaceName, .child), (.name, .child)]
  | .exportDeclaration =>
      [(.declaration, .child)]
  | .exportNamedDeclaration =>
      [(.specifiers, .list), (.source, .optional), (.asserts, .optional)]
  | .exportAllDeclaration =>
      [(.source, .child), (.asserts, .optional)]
  | .exportDefaultDeclaration =>
      [(.decl, .child)]
  | .exportSpecifier =>
      [(.orig, .child), (.exported, .optional)]
  | .exportDefaultSpecifier =>
      [(.exported, .child)]
  | .arrayPattern =>
      [(.elements, .holes), (.declaredType, .optional)]
  | .restElement =>
      [(.argument, .child), (.declaredType, .optional)]
  | .getterProperty =>
      [(.key, .child), (.declaredType, .optional), (.body, .optional)]
  | .setterProperty =>
      [(.key, .child), (.param, .child), (.body, .optional)]
  | .methodProperty =>
      [(.key, .child), (.params, .list), (.body, .optional), (.typeParameters, .optional),
       (.returnType, .optional)]
  | .tsTypeParameterDeclaration =>
      [(.parameters, .list)]
  | .tsTypeParameter =>
      [(.constraint, .optional), (.defaultType, .optional), (.name, .child)]
  | .tsParameterProperty =>
      [(.param, .child), (.decorators, .list)]
  | .tsCallSignatureDeclaration | .tsConstructSignatureDeclaration =>
      [(.params, .list), (.declaredType, .optional), (.typeParams, .optional)]
  | .tsGetterSignature =>
      [(.key, .child), (.declaredType, .optional)]
  | .tsSetterSignature =>
      [(.key, .child), (.param, .child)]
  | .tsMethodSignature =>
      [(.key, .child), (.params, .list), (.typeAnn, .optional), (.typeParams, .optional)]
  | .tsIndexSignature =>
      [(.params, .list), (.declaredType, .optional)]
  | .tsFunctionType | .tsConstructorType =>
      [(.params, .list), (.typeParams, .optional), (.declaredType, .optional)]
  | .tsTypePredicate =>
      [(.paramName, .child), (.declaredType, .optional)]
  | .tsImportType =>
      [(.argument, .child), (.qualifier, .optional), (.typeArguments, .optional)]
  | .tsTypeQuery =>
      [(.exprName, .child), (.typeArguments, .optional)]
  | .tsArrayType =>
      [(.elemType, .child)]
  | .tsTupleType =>
      [(.elemTypes, .list)]
  | .tsTupleElement =>
      [(.label, .optional), (.ty, .child)]
  | .tsOptionalType | .tsRestType | .tsParenthesizedType | .tsTypeOperator =>
      [(.declaredType, .child)]
  | .tsIntersectionType =>
      [(.types, .list)]
  | .tsConditionalType =>
      [(.checkType, .child), (.extendsType, .child), (.trueType, .child), (.falseType, .child)]
  | .tsInferType =>
      [(.typeParam, .child)]
  | .tsIndexedAccessType =>
      [(.objectType, .child), (.indexType, .child)]
  | .tsMappedType =>
      [(.typeParam, .child), (.nameType, .optional), (.declaredType, .optional)]
  | .tsInterfaceDeclaration =>
      [(.id, .child), (.typeParams, .optional), (.extendsList, .list), (.body, .child)]
  | .tsInterfaceBody | .tsModuleBlock =>
      [(.body, .list)]
  | .tsExpressionWithTypeArguments =>
      [(.expression, .child), (.typeArguments, .optional)]
  | .tsTypeAliasDeclaration =>
      [(.id, .child), (.typeParams, .optional), (.declaredType, .child)]
  | .tsEnumDeclaration =>
      [(.id, .child), (.members, .list)]
  | .tsEnumMember =>
      [(.id, .child), (.init, .optional)]
  | .tsModuleDeclaration | .tsNamespaceDeclaration =>
      [(.id, .child), (.body, .optional)]
  | .tsImportEqualsDeclaration =>
      [(.id, .child), (.moduleRef, .child)]
  | .tsNamespaceExportDeclaration =>
      [(.id, .child)]
  | _ => []

/-- Fields that are held but not visited. -/
def unvisited : Form → List (Field × Content)
  | .classDeclaration | .classExpression | .classProperty | .privateProperty | .methodProperty =>
      [(.decorators, .list)]
  | .classMethod | .privateMethod =>
      [(.identifier, .optional)]
  | _ => []

/-- Fields that hold no nodes. Their values are checked and not kept. -/
def attributes : Form → List (String × Content)
  | .returnStatement | .throwStatement | .yieldExpression =>
      [("delegate", .flag)]
  | .forInStatement | .forOfStatement =>
      [("isAwait", .flag)]
  | .functionDeclaration | .functionExpression | .arrowFunctionExpression =>
      [("async", .flag), ("generator", .flag)]
  | .classMethod | .privateMethod =>
      [("kind", .text), ("isStatic", .flag)]
  | .classProperty | .privateProperty =>
      [("isStatic", .flag)]
  | .privateName =>
      [("name", .optionalText)]
  | .updateExpression =>
      [("operator", .text), ("prefix", .flag)]
  | .metaProperty | .tsKeywordType =>
      [("kind", .text)]
  | .jsxOpeningElement =>
      [("selfClosing", .flag)]
  | .jsxText =>
      [("value", .text), ("raw", .text)]
  | .exportNamedDeclaration =>
      [("typeOnly", .flag)]
  | .exportSpecifier =>
      [("isTypeOnly", .flag)]
  | .arrayPattern =>
      [("optional", .flag)]
  | .tsTypePredicate =>
      [("asserts", .flag)]
  | .tsTypeOperator =>
      [("op", .text)]
  | .tsIndexedAccessType =>
      [("readonly", .flag)]
  | _ => []

/-- The fields that come first where a node is written without their names, if the
others do not come in the order of the tables. -/
def leading : Form → List String
  | .functionDeclaration | .functionExpression =>
      ["identifier", "params", "decorators", "body", "async", "generator"]
  | .arrowFunctionExpression =>
      ["params", "body", "async", "generator"]
  | .classDeclaration | .classExpression =>
      ["identifier"]
  | .classProperty | .privateProperty =>
      ["key"]
  | .updateExpression =>
      ["operator", "prefix"]
  | .taggedTemplateExpression =>
      ["tag", "typeParameters"]
  | .jsxOpeningElement =>
      ["name", "attributes", "selfClosing"]
  | .exportNamedDeclaration =>
      ["specifiers", "source", "typeOnly"]
  | .arrayPattern =>
      ["elements", "optional"]
  | .methodProperty =>
      ["key", "params", "decorators"]
  | .tsTypeParameter =>
      ["name"]
  | .tsParameterProperty =>
      ["decorators"]
  | .tsFunctionType | .tsConstructorType =>
      ["params", "typeAnnotation"]
  | .tsTypeOperator =>
      ["op"]
  | _ => []

/-- The kind as a serialized tree names it. -/
def tag (form : Form) : String :=
  match form.kindName.toList with
  | 'J' :: 's' :: 'x' :: rest => "JSX" ++ String.ofList rest
  | _ => form.kindName

end Form

end StyleSense
