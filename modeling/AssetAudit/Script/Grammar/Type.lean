import AssetAudit.Script.Grammar.Statement

/-!
# Types

The types of typed dialects and the statements that declare them. No fact is drawn from a type
itself, so all of its nodes are of one kind.
-/
namespace AssetAudit.Script.Grammar

open Rule

def typeWord : R := .token .word .type

/-! ## Types -/

/-- The type of the module another unit exports, and types inside it. -/
def importType : R :=
  .chain (.node .call (.seq (.role .callee (.token (.keyword "import") .importWord))
      (.role .arguments (ref .arguments))))
    [.mk .type .plain [] (.seq (mark ".") typeWord)]

/-- A name, perhaps inside namespaces. -/
def entityName : R := .chain typeWord [.mk .type .plain [] (.seq (mark ".") typeWord)]

def typeQuery : R :=
  all [word "typeof", .either importType
      (.chain entityName [.mk .type .plain [] (all [.check .sameLine, mark "[",
        .either string (.token .number .literal), mark "]"])]),
    .opt (.seq (.check .sameLine) (ref .typeArguments))]

def tupleElement : R :=
  .seq (.opt (mark "...")) (.either
    (all [typeWord, .opt (mark "?"), mark ":", ref .type])
    (.seq (ref .type) (.opt (mark "?"))))

/-- A template whose substitutions are types. -/
def templateType : R :=
  .node .type (all [mark "`",
    .many (.either (.glued .templateText .token)
      (all [.glued (.symbol "$\x7b" "") .token, .bracketed true (ref .type), mark "\x7d"])),
    .glued (.symbol "`" "") .token])

def primaryType : R :=
  any [
    parens (ref .type),
    ref .objectType,
    brackets (commaList tupleElement),
    templateType,
    string,
    .seq (.opt (.either (mark "-") (mark "+"))) (.token .number .literal),
    .seq (.ahead (.seq (word "import") (mark "("))) (.seq importType (.opt (ref .typeArguments))),
    mark "*",
    .seq entityName (.opt (.seq (.check .sameLine) (ref .typeArguments)))]

def typeOperator : R :=
  .node .type (any [
    .seq (any [word "keyof", word "unique", word "readonly", mark "?"]) (ref .typeOperator),
    all [word "infer", typeWord,
      .opt (all [word "extends", ref .union, .barred (mark "?")])],
    .chain (.either typeQuery (.node .type primaryType))
      [.mk .type .plain [] (all [.check .sameLine, mark "[", .opt (.bracketed true (ref .type)),
        mark "]"])]])

def intersection : R :=
  .seq (.opt (op "&" "&")) (.chain (ref .typeOperator)
    [.mk .type .plain [] (.seq (op "&" "&") (ref .typeOperator))])

def union : R :=
  .seq (.opt (op "|" "|")) (.chain (ref .intersection)
    [.mk .type .plain [] (.seq (op "|" "|") (ref .intersection))])

def functionType : R :=
  let result := any [
    all [.opt (word "asserts"), typeWord, word "is", ref .type],
    all [word "asserts", typeWord, .barred (mark ".")],
    ref .type]
  any [
    all [.opt (word "abstract"), word "new", .opt (ref .typeParameters), ref .parameters,
      mark "=>", ref .type],
    all [ref .typeParameters, ref .parameters, mark "=>", result],
    all [.check .arrowAhead, ref .parameters, mark "=>", result]]

def type (d : Dialect) : R :=
  .either (.node .type functionType)
    (.chain (ref .union) [.mk .type .plain [] (all [.check .sameLine, word "extends",
      .either (.node .type functionType) (ref .union), questionMark d, ref .type, mark ":",
      ref .type])])

def typeArguments : R := .node .type (all [mark "<", .bracketed true (commaSome (ref .type)), mark ">"])

def typeParameters : R :=
  let parameter := all [.opt (.seq (word "const") (.ahead (.token .word .token))), typeWord,
    .opt (.seq (.either (word "extends") (mark ":")) (ref .type)),
    .opt (.seq (mark "=") (ref .type))]
  .node .type (all [mark "<", .bracketed true (commaSome parameter), mark ">"])

/-! ## Object types -/

def typeMember (d : Dialect) : R :=
  let keyAhead := .ahead propertyKey
  let modifier (w : String) : R := .opt (.seq (word w) keyAhead)
  let sign := .opt (.either (mark "+") (mark "-"))
  any [
    all [.opt (.seq sign (word "readonly")), mark "[", typeWord, word "in", ref .type,
      .opt (.seq (word "as") (ref .type)), mark "]", .opt (.seq sign (mark "?")),
      .opt typeAnnotation],
    all [.opt (word "readonly"), mark "[", typeWord, mark ":", ref .type, mark "]",
      typeAnnotation],
    all [.opt (word "abstract"), word "new", .opt (ref .typeParameters), ref .parameters,
      .opt resultType],
    all [.opt (ref .typeParameters), ref .parameters, .opt resultType],
    all [methodHead true, signature d resultType],
    all [modifier "public", modifier "private", modifier "protected", modifier "static",
      modifier "readonly", propertyKey, .opt (mark "?"), .opt typeAnnotation]]

def objectType (d : Dialect) : R :=
  let separator := any [mark ";", mark ",", .check .newLine, .ahead (mark "\x7d")]
  .node .type (all [mark "\x7b", .bracketed false (.many (.either
    (.seq (.node .type (typeMember d)) separator) (mark ";"))), mark "\x7d"])

/-! ## Declarations of types -/

def typeName : R := .role .name (.token .word .type)

def enumBody : R :=
  braces (.opt (commaSome (.node .declaration (.seq propertyKey (.opt (.seq equals expr))))))

def namespaceName : R :=
  .role .name (.either string (.chain (.token .word .identifier)
    [.mk .type .plain [] (.seq (mark ".") typeWord)]))

/-- The statements that typed dialects add. -/
def typeDeclaration (d : Dialect) : R :=
  let declare (r : R) : R := .node .declaration r
  any [
    declare (all [functionWords, .opt (mark "*"), .role .name bindingName, signature d resultType,
      .semicolon .plain]),
    declare (all [.many (decorator d), word "abstract", word "class",
      .role .name className, .opt (ref .typeParameters), heritage d, ref .classBody,
      .opt (.lineEnd .plain)]),
    declare (all [word "interface", typeName, .opt (ref .typeParameters),
      .opt (.seq (word "extends") (comma1 (ref .type))), ref .objectType]),
    declare (all [word "type", .check .sameLine, typeName, .opt (ref .typeParameters), equals,
      ref .type, .semicolon .plain]),
    declare (all [.opt (word "const"), word "enum", typeName, enumBody]),
    declare (all [.either (word "namespace") (word "module"), .check .sameLine, namespaceName,
      .either (ref .block) (.semicolon .plain)]),
    declare (all [word "import", bindingName, mark "=", entityName, .semicolon .plain]),
    declare (all [word "declare", .check .sameLine, any [
      .seq (word "global") (ref .block), ref .declaration]])]

end AssetAudit.Script.Grammar
