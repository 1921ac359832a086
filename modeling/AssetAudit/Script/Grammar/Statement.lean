import AssetAudit.Script.Grammar.Expression

/-!
# Statements

Declarations, control flow, modules and classes. The statements of typed dialects that declare
types are in `AssetAudit.Script.Grammar.Type`.
-/
namespace AssetAudit.Script.Grammar

open Rule

/-! ## Variables -/

def declarator (d : Dialect) : R :=
  .node .declarator (all [.role .name (.either destructuring bindingName),
    optTyped d (mark "!"), optTyped d typeAnnotation, .opt initializer])

def varDeclaration (d : Dialect) : R :=
  .node .varDeclaration (all [word "var", comma1 (declarator d), .semicolon .declarators])

/-- The word that opens a declaration. Where a statement could end after `let`, it is a name. -/
def letOrConst : R := .either (.seq (word "let") (.barred (.lineEnd .expression))) (word "const")

def lexicalDeclaration (d : Dialect) : R :=
  .node .lexicalDeclaration (all [letOrConst, comma1 (declarator d), .semicolon .declarators])

/-! ## Functions and classes -/

def functionDeclaration (d : Dialect) : R :=
  .either
    (.node .functionDeclaration (all [functionWords, .role .name bindingName,
      signature d resultType, ref .block]))
    (.node .generatorDeclaration (all [functionWords, mark "*", .role .name bindingName,
      signature d resultType, ref .block]))

def classDeclaration (d : Dialect) : R :=
  .node .classDeclaration (all [.many (decorator d), word "class", .role .name className,
    optTyped d (ref .typeParameters), heritage d, ref .classBody, .opt (.lineEnd .plain)])

def staticBlock : R := .node .statement (.seq (word "static") (ref .block))

def untypedMember : R :=
  let decorators := .many (decorator .javascript)
  let method := all [methodHead false, signature .javascript .never, ref .block]
  let field := .seq propertyKey (.opt initializer)
  any [
    staticBlock,
    .seq (.node .method (.seq decorators
        (.either (all [word "static", .check .sameLine, method]) method)))
      (.opt (mark ";")),
    .seq (.node .statement (.seq decorators
        (.either (all [word "static", .check .sameLine, field, .ahead (.semicolon .plain)]) field)))
      (.semicolon .declarators),
    mark ";"]

/-- A member of a class in a typed dialect. Decorators stand beside the member, except that those
of a field belong to it. -/
def typedMember (d : Dialect) : R :=
  let keyAhead := .ahead (any [propertyKey, mark "*"])
  let modifier (w : String) : R := .opt (all [word w, .check .sameLine, keyAhead])
  let access := any [word "public", word "private", word "protected"]
  let modifiers := all [modifier "declare", .opt (all [access, .check .sameLine, keyAhead]),
    modifier "declare",
    modifier "static", modifier "override", modifier "abstract", modifier "readonly",
    modifier "abstract", modifier "accessor"]
  let separator := .either (.semicolon .plain) (mark ",")
  any [
    staticBlock,
    .seq (.node .method (all [modifiers, methodHead true, signature d resultType, ref .block]))
      (.opt (mark ";")),
    .seq (.node .declaration (all [modifiers, methodHead true, signature d resultType])) separator,
    .seq (.node .declaration (all [.opt (word "readonly"), mark "[", .token .word .token, mark ":",
      ref .type, mark "]", typeAnnotation])) separator,
    .seq (.node .declaration (all [modifiers, propertyKey,
        .opt (.either (mark "?") (op "!" "=")), .opt typeAnnotation, .opt initializer]))
      (.either (.semicolon .declarators) (mark ",")),
    decorator d,
    mark ";"]

def classBody (d : Dialect) : R :=
  .node .statement (all [mark "\x7b",
    .bracketed false (.many (if d.typed then typedMember d else untypedMember)), mark "\x7d"])

/-! ## Modules -/

def moduleName : R := .either string bindingName

def fromClause : R := .seq (word "from") (.role .source string)

def attributes (d : Dialect) : R :=
  .opt (.seq (.either (word "with") (whenTyped d (word "assert"))) (ref .object))

/-- The word that marks a type among the names of an import or export. -/
def typeMark (d : Dialect) : R :=
  optTyped d (all [.either (word "type") (word "typeof"),
    .ahead (.either (.token (.wordExcept ["as"]) .token) string)])

def importSpecifier (d : Dialect) : R :=
  .node .importSpecifier (.seq (typeMark d) (.either
    (all [.role .name moduleName, word "as", .role .localName bindingName])
    (.role .name bindingName)))

def namedImports (d : Dialect) : R := .node .namedImports (braces (commaList (importSpecifier d)))

def namespaceImport : R := .node .namespaceImport (all [mark "*", word "as", bindingName])

def importClause (d : Dialect) : R :=
  let grouped := .either namespaceImport (namedImports d)
  .node .importClause (.either grouped
    (.seq (.token (.wordExcept ["from"]) .identifier) (.opt (.seq (mark ",") grouped))))

def importStatement (d : Dialect) : R :=
  .node .importStatement (all [word "import",
    optTyped d (all [.either (word "type") (word "typeof"),
      .ahead (any [.token (.wordExcept ["from"]) .token, mark "\x7b", mark "*"])]),
    any [
      .seq (importClause d) fromClause,
      whenTyped d (.node .importClause (all [bindingName, mark "=", word "require", mark "(",
        .role .source string, mark ")"])),
      .role .source string],
    attributes d, .semicolon .plain])

def exportSpecifier (d : Dialect) : R :=
  .node .exportSpecifier (all [typeMark d, .role .name moduleName,
    .opt (.seq (word "as") (.role .localName moduleName))])

def exportClause (d : Dialect) : R := .node .exportClause (braces (commaList (exportSpecifier d)))

def exportStatement (d : Dialect) : R :=
  let listed := any [
    .seq (.node .namespaceExport (all [mark "*", word "as", moduleName])) fromClause,
    .seq (.token (.symbol "*" "") .star) fromClause,
    .seq (exportClause d) (.opt fromClause)]
  let default := .seq (.token (.keyword "default") .defaultWord) (.either
    (.role .declaration (ref .declaration))
    (all [.barred (.either (word "const") (word "var")), .role .value expr,
      .semicolon .expression]))
  .either
    (.node .exportStatement (.seq (word "export") (any [
      .seq listed (.semicolon .plain),
      whenTyped d (any [
        all [word "type", exportClause d, .opt fromClause, .semicolon .plain],
        all [word "import", bindingName, mark "=", ref .postfixed, .semicolon .plain],
        all [mark "=", expr, .semicolon .expression],
        all [word "as", word "namespace", bindingName, .semicolon .plain]])])))
    (.node .exportStatement (all [.many (decorator d), word "export",
      .either default (.role .declaration (ref .declaration))]))

/-! ## Control flow -/

def control (r : R) : R := .node .statement r

def ifStatement (d : Dialect) : R :=
  control (all [word "if", parenthesized d, ref .statement,
    .opt (.seq (word "else") (ref .statement))])

def forStatement (d : Dialect) : R :=
  let declared := .either destructuring bindingName
  let binder := any [
    all [word "var", declared, .seq equals (ref (.binary (relationLevel + 1))),
      .ahead (.either (word "in") (word "of"))],
    .seq (any [word "var", word "let", word "const"]) declared,
    parenthesized d, destructuring, target]
  let each := all [binder, .either (word "in") (word "of"), ref .sequence]
  let counted := all [
    any [varDeclaration d, lexicalDeclaration d, .seq (ref .sequence) (mark ";"), mark ";"],
    .opt (ref .sequence), mark ";", .opt (ref .sequence)]
  control (all [word "for", .opt (word "await"), mark "(",
    .bracketed true (.either (.seq each (mark ")")) (.seq counted (mark ")"))), ref .statement])

def switchStatement (d : Dialect) : R :=
  let inside := .seq (.barred (.either (word "case") (word "default"))) (ref .statement)
  let case := .seq (.either (.seq (word "case") (.bracketed true (ref .sequence))) (word "default"))
    (.seq (mark ":") (.many inside))
  control (all [word "switch", parenthesized d, mark "\x7b", .bracketed false (.many (control case)),
    mark "\x7d"])

def tryStatement (d : Dialect) : R :=
  let catching := all [word "catch", .opt (all [mark "(", .either destructuring bindingName,
    optTyped d typeAnnotation, mark ")"]), ref .block]
  control (all [word "try", ref .block, .opt catching, .opt (.seq (word "finally") (ref .block))])

def jumpStatement : R :=
  let label := .opt (.seq (.check .sameLine) (.token .word .token))
  any [
    all [.either (word "break") (word "continue"), label, .semicolon .plain],
    all [word "return", .opt (.seq (.barred (.lineEnd .plain)) (ref .sequence)),
      .semicolon .expression],
    all [word "throw", ref .sequence, .semicolon .expression],
    .seq (word "debugger") (.semicolon .plain)]

def loopStatement (d : Dialect) : R :=
  any [
    all [word "while", parenthesized d, ref .statement],
    all [word "do", ref .statement, word "while", parenthesized d, .opt (.lineEnd .plain)],
    all [word "with", parenthesized d, ref .statement]]

/-! ## Statements -/

/-- The words that can only start a statement of their own. -/
def statementWords : List String :=
  ["if", "for", "while", "do", "switch", "try", "with", "break", "continue", "return", "throw",
    "debugger", "var", "const"]

/-- An expression as a statement. It starts with the name `export` only if no export can. -/
def expressionStatement (d : Dialect) : R :=
  let exporting := .seq (word "export") (any [mark "*", whenTyped d (.either (mark "=") (word "as"))])
  .seq (all [.barred exporting, .ahead (.either (.token (.wordExcept statementWords) .token)
      (.barred (.token .word .token)))])
    (.node .expressionStatement (.seq (ref .sequence) (.semicolon .expression)))

def block (ending : Ending) : R :=
  .node .block (all [mark "\x7b", .bracketed false (.many (ref .statement)), .trivia, mark "\x7d",
    .opt (.lineEnd ending)])

def statement (d : Dialect) (typeDeclaration : R) : R :=
  .bracketed false (.seq .trivia (any [
    ref .block,
    ifStatement d,
    forStatement d,
    control (loopStatement d),
    switchStatement d,
    tryStatement d,
    control jumpStatement,
    varDeclaration d,
    lexicalDeclaration d,
    functionDeclaration d,
    classDeclaration d,
    importStatement d,
    exportStatement d,
    whenTyped d typeDeclaration,
    control (mark ";"),
    control (all [.token (.wordExcept statementWords) .token, mark ":", ref .statement]),
    expressionStatement d]))

def declaration (d : Dialect) (typeDeclaration : R) : R :=
  any [functionDeclaration d, classDeclaration d, lexicalDeclaration d, varDeclaration d,
    whenTyped d typeDeclaration]

end AssetAudit.Script.Grammar
