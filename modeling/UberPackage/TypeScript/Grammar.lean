/-
  The grammar of TypeScript sources.

  * `Form` is the notation: tokens and phrases put together by sequence, choice,
    option and repetition.
  * `Phrase.form` gives each phrase its form.
-/
import UberPackage.TypeScript.Node

namespace UberPackage.TypeScript

/-- What a phrase is made of. -/
inductive Form where
  | token (t : Token)
  | phrase (p : Phrase)
  /-- A part that plays a role in the phrase. -/
  | inRole (r : Role) (f : Form)
  | seq (fs : List Form)
  | oneOf (fs : List Form)
  | opt (f : Form)
  /-- One or more. -/
  | some (f : Form)
deriving Inhabited, Repr

namespace Form

instance : Coe Token Form := ⟨token⟩
instance : Coe Phrase Form := ⟨phrase⟩

/-- A keyword. -/
def word (s : String) : Form := token (.word s)

/-- A punctuation mark. -/
def mark (s : String) : Form := token (.mark s)

/-- None or more. -/
def many (f : Form) : Form := opt (some f)

/-- One or more with commas between. -/
def commaSome (f : Form) : Form := seq [f, many (seq [mark ",", f])]

/-- None or more with commas between. -/
def commaMany (f : Form) : Form := opt (commaSome f)

/-- One of several keywords. -/
def words (ss : List String) : Form := oneOf (ss.map word)

/-- One of several punctuation marks. -/
def marks (ss : List String) : Form := oneOf (ss.map mark)

/-- The end of a statement. -/
def semicolon : Form := oneOf [token .autoSemicolon, mark ";"]

/-- A line break or closing brace that may end a block. -/
def blockEnd : Form := opt (token .autoSemicolon)

end Form

/-- Keywords that also serve as ordinary names. -/
def reservedNames : List String :=
  ["declare", "namespace", "type", "public", "private", "protected", "override", "readonly",
   "module", "any", "number", "boolean", "string", "symbol", "export", "object", "new", "get",
   "set", "async", "static", "let"]

/-! ## The form of each phrase -/

open Form in
/-- What each phrase is made of. -/
def Phrase.form : Phrase → Form
  -- exports, imports and the names in them
  | .program => seq [opt (token .hashBang), many Phrase.statement]
  | .exportStatement => oneOf
      [ seq [word "export",
          oneOf [ seq [mark "*", Phrase.fromClause],
                  seq [Phrase.namespaceExport, Phrase.fromClause],
                  seq [Phrase.exportClause, Phrase.fromClause],
                  Phrase.exportClause ],
          semicolon],
        seq [many Phrase.decorator, word "export",
          oneOf [ Phrase.declaration,
                  seq [word "default",
                    oneOf [Phrase.declaration, seq [Phrase.expression, semicolon]]] ]],
        seq [word "export", word "type", Phrase.exportClause, opt Phrase.fromClause, semicolon],
        seq [word "export", mark "=", Phrase.expression, semicolon],
        seq [word "export", word "as", word "namespace", Token.identifier, semicolon] ]
  | .namespaceExport => seq [mark "*", word "as", Phrase.moduleExportName]
  | .exportClause =>
    seq [mark "\x7b", commaMany Phrase.exportSpecifier, opt (mark ","), mark "\x7d"]
  | .exportSpecifier => seq [opt (words ["type", "typeof"]), Phrase.moduleExportName,
      opt (seq [word "as", Phrase.moduleExportName])]
  | .moduleExportName => oneOf [Token.identifier, Phrase.string]
  | .declaration => oneOf
      [ Phrase.functionDeclaration, Phrase.classDeclaration, Phrase.lexicalDeclaration,
        Phrase.variableDeclaration, Phrase.functionSignature, Phrase.abstractClassDeclaration,
        Phrase.moduleDeclaration, Phrase.internalModule, Phrase.typeAlias, Phrase.enumDeclaration,
        Phrase.interfaceDeclaration, Phrase.importAlias, Phrase.ambientDeclaration ]
  | .importStatement => seq [word "import", opt (words ["type", "typeof"]),
      oneOf [ seq [Phrase.importClause, Phrase.fromClause],
              Phrase.importRequireClause,
              inRole .source Phrase.string ],
      opt Phrase.importAttribute, semicolon]
  | .importName => oneOf [Token.identifier, word "type"]
  | .importClause => oneOf
      [ Phrase.namespaceImport, Phrase.namedImports,
        seq [Phrase.importName,
          opt (seq [mark ",", oneOf [Phrase.namespaceImport, Phrase.namedImports]])] ]
  | .fromClause => seq [word "from", inRole .source Phrase.string]
  | .namespaceImport => seq [mark "*", word "as", Token.identifier]
  | .namedImports =>
    seq [mark "\x7b", commaMany Phrase.importSpecifier, opt (mark ","), mark "\x7d"]
  | .importSpecifier => seq [opt (words ["type", "typeof"]),
      oneOf [ Phrase.importName,
              seq [oneOf [Phrase.moduleExportName, word "type"], word "as", Phrase.importName] ]]
  | .importAttribute => seq [words ["with", "assert"], Phrase.objectLiteral]
  | .importRequireClause => seq [Token.identifier, mark "=", word "require", mark "(",
      inRole .source Phrase.string, mark ")"]
  | .importAlias => seq [word "import", Token.identifier, mark "=",
      oneOf [Token.identifier, Phrase.nestedIdentifier], semicolon]
  | .nestedIdentifier => seq [oneOf [Token.identifier, Phrase.nestedIdentifier], mark ".",
      Token.identifier]
  -- statements and the clauses in them
  | .statement => oneOf
      [ Phrase.exportStatement, Phrase.importStatement, Phrase.debuggerStatement,
        Phrase.expressionStatement, Phrase.declaration, Phrase.statementBlock, Phrase.ifStatement,
        Phrase.switchStatement, Phrase.forStatement, Phrase.forInStatement, Phrase.whileStatement,
        Phrase.doStatement, Phrase.tryStatement, Phrase.withStatement, Phrase.breakStatement,
        Phrase.continueStatement, Phrase.returnStatement, Phrase.throwStatement,
        Phrase.emptyStatement, Phrase.labeledStatement ]
  | .expressionStatement => seq [Phrase.expressions, semicolon]
  | .variableDeclaration => seq [word "var", commaSome Phrase.variableDeclarator, semicolon]
  | .lexicalDeclaration => seq [words ["let", "const"], commaSome Phrase.variableDeclarator,
      semicolon]
  | .variableDeclarator => oneOf
      [ seq [oneOf [Token.identifier, Phrase.objectPattern, Phrase.arrayPattern],
          opt Phrase.typeAscription, opt Phrase.initializer],
        seq [Token.identifier, mark "!", Phrase.typeAscription] ]
  | .statementBlock => seq [mark "\x7b", many Phrase.statement, mark "\x7d", blockEnd]
  | .elseClause => seq [word "else", Phrase.statement]
  | .ifStatement => seq [word "if", Phrase.parenthesizedExpression, Phrase.statement,
      opt Phrase.elseClause]
  | .switchStatement => seq [word "switch", Phrase.parenthesizedExpression, Phrase.switchBody]
  | .forStatement => seq [word "for", mark "(",
      oneOf [ Phrase.lexicalDeclaration, Phrase.variableDeclaration,
              seq [Phrase.expressions, mark ";"], Phrase.emptyStatement ],
      oneOf [seq [Phrase.expressions, mark ";"], Phrase.emptyStatement],
      opt Phrase.expressions, mark ")", Phrase.statement]
  | .forInStatement => seq [word "for", opt (word "await"), Phrase.forHeader, Phrase.statement]
  | .forHeader => seq [mark "(",
      oneOf [ Phrase.pattern,
              seq [word "var", Phrase.pattern, opt Phrase.initializer],
              seq [words ["let", "const"], Phrase.pattern, blockEnd] ],
      words ["in", "of"], Phrase.expressions, mark ")"]
  | .whileStatement => seq [word "while", Phrase.parenthesizedExpression, Phrase.statement]
  | .doStatement => seq [word "do", Phrase.statement, word "while", Phrase.parenthesizedExpression,
      opt semicolon]
  | .tryStatement => seq [word "try", Phrase.statementBlock,
      oneOf [ seq [Phrase.catchClause, opt Phrase.finallyClause], Phrase.finallyClause ]]
  | .withStatement => seq [word "with", Phrase.parenthesizedExpression, Phrase.statement]
  | .breakStatement => seq [word "break", opt Token.identifier, semicolon]
  | .continueStatement => seq [word "continue", opt Token.identifier, semicolon]
  | .debuggerStatement => seq [word "debugger", semicolon]
  | .returnStatement => seq [word "return", opt Phrase.expressions, semicolon]
  | .throwStatement => seq [word "throw", Phrase.expressions, semicolon]
  | .emptyStatement => mark ";"
  | .labeledStatement => seq [oneOf [Token.identifier, words reservedNames], mark ":",
      Phrase.statement]
  | .switchBody => seq [mark "\x7b", many Phrase.switchCase, mark "\x7d"]
  | .switchCase => seq [oneOf [seq [word "case", Phrase.expressions], word "default"], mark ":",
      many Phrase.statement]
  | .catchClause => seq [word "catch",
      opt (seq [mark "(", oneOf [Token.identifier, Phrase.objectPattern, Phrase.arrayPattern],
        opt Phrase.typeAscription, mark ")"]),
      Phrase.statementBlock]
  | .finallyClause => seq [word "finally", Phrase.statementBlock]
  -- expressions, patterns, functions and classes
  | .parenthesizedExpression => seq [mark "(",
      oneOf [seq [Phrase.expression, opt Phrase.typeAscription], Phrase.sequenceExpression],
      mark ")"]
  | .expressions => oneOf [Phrase.expression, Phrase.sequenceExpression]
  | .sequenceExpression => seq [Phrase.expression, some (seq [mark ",", Phrase.expression])]
  | .expression => oneOf
      [ Phrase.operation, Phrase.ternaryExpression, Phrase.assignmentExpression,
        Phrase.arrowFunction, Phrase.yieldExpression ]
  | .operation => oneOf [Phrase.operand, Phrase.binaryExpression, Phrase.asExpression]
  | .operand => oneOf
      [ Phrase.primary, Phrase.unaryExpression, Phrase.awaitExpression, Phrase.updateExpression,
        Phrase.typeAssertion, Phrase.instantiation ]
  | .primary => oneOf
      [ Phrase.name, word "this", word "super", Token.number, Phrase.string, Phrase.templateString,
        Token.regex, words ["true", "false", "null", "undefined"], Phrase.objectLiteral,
        Phrase.arrayLiteral, Phrase.functionExpression, Phrase.classExpression,
        Phrase.parenthesizedExpression, Phrase.subscriptExpression, Phrase.memberExpression,
        Phrase.callExpression, Phrase.metaProperty, Phrase.nonNullExpression,
        Phrase.newExpression ]
  | .name => oneOf [Token.identifier, words reservedNames]
  | .yieldExpression => seq [word "yield",
      oneOf [seq [mark "*", Phrase.expression], opt Phrase.expression]]
  | .objectLiteral => seq [mark "\x7b", commaMany (opt Phrase.objectMember), mark "\x7d"]
  | .objectMember => oneOf
      [ Phrase.pair, Phrase.spread, Phrase.methodDefinition, Phrase.name,
        seq [Phrase.name, Phrase.initializer] ]
  | .pair => seq [Phrase.propertyName, mark ":", Phrase.expression]
  | .spread => seq [mark "...", Phrase.expression]
  | .objectPattern => seq [mark "\x7b", commaMany (opt Phrase.objectPatternMember), mark "\x7d"]
  | .objectPatternMember => oneOf
      [ seq [Phrase.propertyName, mark ":", oneOf [Phrase.pattern, Phrase.assignmentPattern]],
        Phrase.restPattern, Phrase.name, seq [Phrase.name, Phrase.initializer] ]
  | .assignmentPattern => seq [Phrase.pattern, mark "=", Phrase.expression]
  | .restPattern => seq [mark "...", Phrase.pattern]
  | .arrayLiteral => seq [mark "[", commaMany (opt Phrase.arrayElement), mark "]"]
  | .arrayElement => oneOf [Phrase.expression, Phrase.spread]
  | .arrayPattern => seq [mark "[", commaMany (opt Phrase.arrayPatternElement), mark "]"]
  | .arrayPatternElement => oneOf [Phrase.pattern, Phrase.assignmentPattern]
  | .pattern => oneOf
      [ Phrase.name, Phrase.objectPattern, Phrase.arrayPattern, Phrase.restPattern,
        Phrase.memberExpression, Phrase.subscriptExpression ]
  | .initializer => seq [mark "=", Phrase.expression]
  | .classExpression => seq [many Phrase.decorator, word "class", opt Token.identifier,
      opt Phrase.typeParameters, opt Phrase.classHeritage, Phrase.classBody]
  | .classDeclaration => seq [many Phrase.decorator, word "class", Token.identifier,
      opt Phrase.typeParameters, opt Phrase.classHeritage, Phrase.classBody, blockEnd]
  | .abstractClassDeclaration => seq [many Phrase.decorator, word "abstract", word "class",
      Token.identifier, opt Phrase.typeParameters, opt Phrase.classHeritage, Phrase.classBody]
  | .classHeritage => oneOf
      [ seq [word "extends", commaSome (seq [Phrase.primary, opt Phrase.typeArguments]),
          opt (seq [word "implements", commaSome Phrase.typeForm])],
        seq [word "implements", commaSome Phrase.typeForm] ]
  | .functionExpression => seq [opt (word "async"), word "function", opt (mark "*"),
      opt Phrase.name, Phrase.callSignature, Phrase.statementBlock]
  | .functionDeclaration => seq [opt (word "async"), word "function", opt (mark "*"),
      Phrase.name, Phrase.callSignature, Phrase.statementBlock]
  | .functionSignature => seq [opt (word "async"), word "function", opt (mark "*"),
      Phrase.name, Phrase.callSignature,
      oneOf [semicolon, Token.signatureSemicolon]]
  | .arrowFunction => seq [opt (word "async"), oneOf [Phrase.name, Phrase.callSignature], mark "=>",
      oneOf [Phrase.expression, Phrase.statementBlock]]
  | .callSignature => seq [opt Phrase.typeParameters, Phrase.parameters, opt Phrase.returnType]
  | .parameters => seq [mark "(", opt (seq [commaSome Phrase.parameter, opt (mark ",")]), mark ")"]
  | .parameter => seq [Phrase.parameterName, opt (mark "?"), opt Phrase.typeAscription,
      opt Phrase.initializer]
  | .parameterName => seq [many Phrase.decorator,
      many (words ["public", "private", "protected", "override", "readonly"]),
      oneOf [Phrase.pattern, word "this"]]
  | .callExpression => oneOf
      [ seq [Phrase.primary, opt (mark "?."), opt Phrase.typeArguments, Phrase.arguments],
        seq [Phrase.importKeyword, Phrase.arguments],
        seq [Phrase.primary, opt Phrase.typeArguments, Phrase.templateString] ]
  | .importKeyword => word "import"
  | .newExpression => seq [word "new", Phrase.primary, opt Phrase.typeArguments,
      opt Phrase.arguments]
  | .arguments => seq [mark "(", commaMany (opt Phrase.arrayElement), mark ")"]
  | .memberExpression => seq [oneOf [Phrase.primary, Phrase.importKeyword], marks [".", "?."],
      oneOf [Token.privateName, Token.identifier]]
  | .subscriptExpression => seq [Phrase.primary, opt (mark "?."), mark "[", Phrase.expressions,
      mark "]"]
  | .metaProperty => oneOf [seq [word "new", mark ".", word "target"],
      seq [word "import", mark ".", word "meta"]]
  | .nonNullExpression => seq [Phrase.primary, mark "!"]
  | .assignmentExpression => seq [oneOf [Phrase.primary, Phrase.objectPattern, Phrase.arrayPattern],
      marks ["=", "+=", "-=", "*=", "/=", "%=", "^=", "&=", "|=", ">>=", ">>>=", "<<=", "**=",
        "&&=", "||=", "??="],
      Phrase.expression]
  | .awaitExpression => seq [word "await", Phrase.operand]
  | .ternaryExpression => seq [Phrase.operation, mark "?", Phrase.expression, mark ":",
      Phrase.expression]
  | .binaryExpression => seq [oneOf [Phrase.operation, Token.privateName], Phrase.binaryOperator,
      Phrase.operand]
  | .binaryOperator => oneOf
      [ marks ["&&", "||", ">>", ">>>", "<<", "&", "^", "|", "+", "-", "*", "/", "%", "**", "<",
          "<=", "==", "===", "!=", "!==", ">=", ">", "??"],
        words ["instanceof", "in"] ]
  | .unaryExpression => seq [oneOf [marks ["!", "~", "-", "+"], words ["typeof", "void", "delete"]],
      Phrase.operand]
  | .updateExpression => oneOf [seq [Phrase.primary, marks ["++", "--"]],
      seq [marks ["++", "--"], Phrase.operand]]
  | .asExpression => seq [Phrase.operation, words ["as", "satisfies"], Phrase.typeForm]
  | .typeAssertion => seq [Phrase.typeArguments, Phrase.operand]
  | .instantiation => seq [Phrase.primary, Phrase.typeArguments]
  | .string => oneOf
      [ seq [mark "\"", many (oneOf [Token.doubleFragment, Token.escape]), mark "\""],
        seq [mark "'", many (oneOf [Token.singleFragment, Token.escape]), mark "'"] ]
  | .templateString => seq [mark "`",
      many (oneOf [Token.templateChars, Token.escape, Phrase.templateSubstitution]), mark "`"]
  | .templateSubstitution => seq [mark "$\x7b", Phrase.expressions, mark "\x7d"]
  | .decorator => seq [mark "@", Phrase.decoratorTarget]
  | .decoratorTarget => oneOf
      [ Token.identifier, seq [Phrase.decoratorTarget, mark ".", Token.identifier],
        seq [Phrase.decoratorTarget, opt Phrase.typeArguments, Phrase.arguments],
        Phrase.parenthesizedExpression ]
  | .classBody => seq [mark "\x7b", many Phrase.classMember, mark "\x7d"]
  | .classMember => oneOf
      [ seq [many Phrase.decorator, Phrase.methodDefinition, opt semicolon],
        seq [Phrase.methodSignature, oneOf [Token.signatureSemicolon, mark ",", semicolon]],
        Phrase.staticBlock,
        seq [oneOf [Phrase.indexSignature, Phrase.fieldDefinition], oneOf [semicolon, mark ","]],
        mark ";" ]
  | .modifier => words ["public", "private", "protected", "static", "override", "readonly",
      "abstract", "declare", "async", "get", "set", "accessor"]
  | .methodDefinition => seq [many Phrase.modifier, opt (mark "*"), Phrase.propertyName,
      opt (mark "?"), Phrase.callSignature, Phrase.statementBlock]
  | .methodSignature => seq [many Phrase.modifier, opt (mark "*"), Phrase.propertyName,
      opt (mark "?"), Phrase.callSignature]
  | .staticBlock => seq [word "static", Phrase.statementBlock]
  | .fieldDefinition => seq [many Phrase.decorator, many Phrase.modifier, Phrase.propertyName,
      opt (marks ["?", "!"]), opt Phrase.typeAscription, opt Phrase.initializer]
  | .propertyName => oneOf
      [ Phrase.name, Token.privateName, Phrase.string, Token.number, Phrase.computedName ]
  | .computedName => seq [mark "[", Phrase.expression, mark "]"]
  -- types and the declarations made of them
  | .typeAscription => seq [mark ":", Phrase.typeForm]
  | .returnType => seq [mark ":",
      oneOf [Phrase.typeForm, Phrase.assertsPredicate, Phrase.typePredicate]]
  | .assertsPredicate => seq [word "asserts",
      oneOf [Phrase.typePredicate, Phrase.name, word "this"]]
  | .typePredicate => seq [oneOf [Phrase.name, word "this"], word "is", Phrase.typeForm]
  | .typeForm => oneOf
      [ Phrase.primaryType, Phrase.functionType, Phrase.constructorType, Phrase.unionType,
        Phrase.intersectionType, Phrase.conditionalType ]
  | .primaryType => oneOf
      [ Phrase.parenthesizedType, Phrase.predefinedType, Phrase.typeName, Phrase.genericType,
        Phrase.objectType, Phrase.arrayType, Phrase.tupleType, Phrase.typeQuery, Phrase.keyofType,
        words ["this", "const"], Phrase.literalType, Phrase.lookupType, Phrase.templateType,
        Phrase.importType, Phrase.readonlyType, Phrase.inferType ]
  | .typeName => oneOf [Token.identifier, Phrase.nestedTypeName]
  | .nestedTypeName => seq [oneOf [Token.identifier, Phrase.nestedTypeName], mark ".",
      Token.identifier]
  | .genericType => seq [oneOf [Phrase.typeName, Phrase.importType], Phrase.typeArguments]
  | .importType => oneOf [seq [Phrase.importKeyword, Phrase.arguments],
      seq [Phrase.importType, mark ".", Token.identifier]]
  | .typeArguments => seq [mark "<", commaSome Phrase.typeForm, opt (mark ","), Token.closeAngle]
  | .typeParameters => seq [mark "<", commaSome Phrase.typeParameter, opt (mark ","),
      Token.closeAngle]
  | .typeParameter => seq [opt (word "const"), Token.identifier,
      opt (seq [word "extends", Phrase.typeForm]), opt (seq [mark "=", Phrase.typeForm])]
  | .predefinedType => oneOf [words ["any", "number", "boolean", "string", "symbol", "void",
      "unknown", "never", "object"], seq [word "unique", word "symbol"]]
  | .parenthesizedType => seq [mark "(", Phrase.typeForm, mark ")"]
  | .objectType => seq [mark "\x7b", opt (marks [",", ";"]),
      opt (seq [Phrase.objectTypeMember,
        many (seq [oneOf [mark ",", semicolon], Phrase.objectTypeMember]),
        opt (oneOf [mark ",", semicolon])]),
      mark "\x7d"]
  | .objectTypeMember => oneOf
      [ Phrase.exportStatement, Phrase.propertySignature, Phrase.callTypeSignature,
        Phrase.constructSignature, Phrase.indexSignature, Phrase.methodSignature ]
  | .propertySignature => seq [many Phrase.modifier, Phrase.propertyName, opt (mark "?"),
      opt Phrase.typeAscription]
  | .callTypeSignature => Phrase.callSignature
  | .constructSignature => seq [opt (word "abstract"), word "new", opt Phrase.typeParameters,
      Phrase.parameters, opt Phrase.typeAscription]
  | .indexSignature => seq [opt (seq [opt (marks ["-", "+"]), word "readonly"]), mark "[",
      oneOf [seq [Phrase.name, mark ":", Phrase.typeForm], Phrase.mappedClause], mark "]",
      opt (seq [marks [":", "-?:", "+?:", "?:"], Phrase.typeForm])]
  | .mappedClause => seq [Token.identifier, word "in", Phrase.typeForm,
      opt (seq [word "as", Phrase.typeForm])]
  | .arrayType => seq [Phrase.primaryType, mark "[", mark "]"]
  | .lookupType => seq [Phrase.primaryType, mark "[", Phrase.typeForm, mark "]"]
  | .tupleType => seq [mark "[", commaMany Phrase.tupleMember, opt (mark ","), mark "]"]
  | .tupleMember => oneOf
      [ Phrase.typeForm, seq [Phrase.name, opt (mark "?"), Phrase.typeAscription],
        seq [mark "...", Phrase.typeForm], seq [Phrase.typeForm, mark "?"],
        seq [mark "...", Phrase.name, Phrase.typeAscription] ]
  | .typeQuery => seq [word "typeof", Phrase.queryTarget, opt Phrase.typeArguments]
  | .queryTarget => oneOf
      [ Token.identifier, word "this",
        seq [Phrase.queryTarget, mark ".", oneOf [Token.privateName, Token.identifier]],
        Phrase.importType ]
  | .keyofType => seq [word "keyof", Phrase.primaryType]
  | .readonlyType => seq [word "readonly", Phrase.primaryType]
  | .inferType => seq [word "infer", Token.identifier,
      opt (seq [word "extends", Phrase.primaryType])]
  | .literalType => oneOf
      [ seq [opt (marks ["-", "+"]), Token.number], Phrase.string,
        words ["true", "false", "null", "undefined"] ]
  | .templateType => seq [mark "`",
      many (oneOf [Token.templateChars, Token.escape,
        seq [mark "$\x7b", Phrase.typeForm, mark "\x7d"]]),
      mark "`"]
  | .conditionalType => seq [Phrase.typeForm, word "extends", Phrase.typeForm, mark "?",
      Phrase.typeForm, mark ":", Phrase.typeForm]
  | .unionType => seq [opt Phrase.typeForm, mark "|", oneOf [Phrase.primaryType,
      Phrase.intersectionType, Phrase.functionType, Phrase.constructorType]]
  | .intersectionType => seq [opt Phrase.typeForm, mark "&", oneOf [Phrase.primaryType,
      Phrase.functionType]]
  | .functionType => seq [opt Phrase.typeParameters, Phrase.parameters, mark "=>",
      oneOf [Phrase.typeForm, Phrase.assertsPredicate, Phrase.typePredicate]]
  | .constructorType => seq [opt (word "abstract"), word "new", opt Phrase.typeParameters,
      Phrase.parameters, mark "=>", Phrase.typeForm]
  | .enumDeclaration => seq [opt (word "const"), word "enum", Token.identifier, Phrase.enumBody]
  | .enumBody => seq [mark "\x7b", opt (seq [commaSome Phrase.enumMember, opt (mark ",")]),
      mark "\x7d"]
  | .enumMember => seq [Phrase.propertyName, opt Phrase.initializer]
  | .interfaceDeclaration => seq [word "interface", Token.identifier, opt Phrase.typeParameters,
      opt Phrase.extendsTypes, Phrase.objectType]
  | .extendsTypes => seq [word "extends", commaSome Phrase.typeForm]
  | .typeAlias => seq [word "type", Token.identifier, opt Phrase.typeParameters, mark "=",
      Phrase.typeForm, semicolon]
  | .moduleDeclaration => seq [word "module", Phrase.moduleName, opt Phrase.statementBlock]
  | .internalModule => seq [word "namespace", Phrase.moduleName, opt Phrase.statementBlock]
  | .moduleName => oneOf [Phrase.string, Token.identifier, Phrase.nestedIdentifier]
  | .ambientDeclaration => seq [word "declare",
      oneOf [ Phrase.declaration, seq [word "global", Phrase.statementBlock],
              seq [word "module", mark ".", Token.identifier, mark ":", Phrase.typeForm,
                semicolon] ]]

end UberPackage.TypeScript
