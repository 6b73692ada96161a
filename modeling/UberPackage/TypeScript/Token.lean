/-
  The terminal symbols of the TypeScript grammar and its phrase names.

  * `Token` has one constructor per class of lexemes; words and marks carry their spelling.
  * `Phrase` names the nonterminals.  A hidden phrase (`Phrase.hidden`) has no node of
    its own in a tree: its parts belong to the phrase around it.
-/
namespace UberPackage.TypeScript

/-! ## Tokens -/

/-- A terminal symbol of the grammar. -/
inductive Token where
  /-- A keyword. -/
  | word (spelling : String)
  /-- Punctuation; the longest mark at a place wins. -/
  | mark (spelling : String)
  /-- The `>` that closes a list of types, also where a longer mark begins. -/
  | closeAngle
  | identifier
  | privateName
  | number
  | regex
  /-- A stretch of a single-quoted string without escapes. -/
  | singleFragment
  /-- A stretch of a double-quoted string without escapes. -/
  | doubleFragment
  | escape
  /-- A stretch of a template without escapes. -/
  | templateChars
  /-- The statement end that a line break or a closing brace stands for. -/
  | autoSemicolon
  /-- The same after a function signature, where a body may still follow on the next line. -/
  | signatureSemicolon
  | hashBang
  | endOfText
deriving DecidableEq, Hashable, Inhabited, Repr

namespace Token

/-- Tokens whose leaves carry a name of their own, unlike keywords and punctuation. -/
def named : Token → Bool
  | identifier | privateName | number | regex | singleFragment | doubleFragment | escape
  | templateChars | hashBang => true
  | _ => false

/-- Tokens that stand directly after what precedes them, with no blanks or comments between. -/
def immediate : Token → Bool
  | singleFragment | doubleFragment | escape | templateChars => true
  | _ => false

end Token

/-! ## Phrases -/

/-- A nonterminal of the grammar. -/
inductive Phrase where
  -- exports, imports and the names in them
  | program | exportStatement | namespaceExport | exportClause | exportSpecifier
  | moduleExportName | declaration | importStatement | importName | importClause | fromClause
  | namespaceImport | namedImports | importSpecifier | importAttribute | importRequireClause
  | importAlias | nestedIdentifier
  -- statements and the clauses in them
  | statement | expressionStatement | variableDeclaration | lexicalDeclaration
  | variableDeclarator | statementBlock | elseClause | ifStatement | switchStatement
  | forStatement | forInStatement | forHeader | whileStatement | doStatement | tryStatement
  | withStatement | breakStatement | continueStatement | debuggerStatement | returnStatement
  | throwStatement | emptyStatement | labeledStatement | switchBody | switchCase | catchClause
  | finallyClause
  -- expressions, patterns, functions and classes
  | parenthesizedExpression | expressions | sequenceExpression | expression | operation
  | operand | primary | name | yieldExpression | objectLiteral | objectMember | pair | spread
  | objectPattern | objectPatternMember | assignmentPattern | restPattern | arrayLiteral
  | arrayElement | arrayPattern | arrayPatternElement | pattern | initializer | classExpression
  | classDeclaration | abstractClassDeclaration | classHeritage | functionExpression
  | functionDeclaration | functionSignature | arrowFunction | callSignature | parameters
  | parameter | parameterName | callExpression | importKeyword | newExpression | arguments
  | memberExpression | subscriptExpression | metaProperty | nonNullExpression
  | assignmentExpression | awaitExpression | ternaryExpression | binaryExpression
  | binaryOperator | unaryExpression | updateExpression | asExpression | typeAssertion
  | instantiation | string | templateString | templateSubstitution | decorator | decoratorTarget
  | classBody | classMember | modifier | methodDefinition | methodSignature | staticBlock
  | fieldDefinition | propertyName | computedName
  -- types and the declarations made of them
  | typeAscription | returnType | assertsPredicate | typePredicate | typeForm | primaryType
  | typeName | nestedTypeName | genericType | importType | typeArguments | typeParameters
  | typeParameter | predefinedType | parenthesizedType | objectType | objectTypeMember
  | propertySignature | callTypeSignature | constructSignature | indexSignature | mappedClause
  | arrayType | lookupType | tupleType | tupleMember | typeQuery | queryTarget | keyofType
  | readonlyType | inferType | literalType | templateType | conditionalType | unionType
  | intersectionType | functionType | constructorType | enumDeclaration | enumBody | enumMember
  | interfaceDeclaration | extendsTypes | typeAlias | moduleDeclaration | internalModule
  | moduleName | ambientDeclaration
deriving DecidableEq, Inhabited, Repr

namespace Phrase

/-- Phrases without a node of their own. -/
def hidden : Phrase → Bool
  | statement | declaration | expressions | expression | operation | operand | primary | name
  | fromClause | importName
  | moduleExportName | objectMember | arrayElement | propertyName | objectPatternMember
  | arrayPatternElement | pattern | initializer | callSignature | parameterName | classMember
  | modifier | decoratorTarget | binaryOperator | returnType | typeForm | primaryType | typeName
  | objectTypeMember | tupleMember | queryTarget | moduleName | forHeader => true
  | _ => false

end Phrase

end UberPackage.TypeScript
