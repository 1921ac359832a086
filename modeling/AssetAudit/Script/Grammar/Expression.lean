import AssetAudit.Script.Grammar.Symbol

/-!
# Expressions

Assignment, conditional, the levels of binary operators, unary and postfix operators, literals,
functions, classes and patterns.
-/
namespace AssetAudit.Script.Grammar

open Rule

/-! ## Operators -/

def assignmentLinks : List (Link Symbol) :=
  [.mk .assignment .left
      [.identifier, .member, .subscript, .parenthesized, .undefinedWord, .nonNull]
      (.seq equals (.role .right expr)),
    .mk .expression .left [.identifier, .member, .subscript, .parenthesized, .nonNull]
      (.seq (any [mark "+=", mark "-=", mark "**=", mark "*=", mark "/=", mark "%=", mark "^=",
          mark "&&=", mark "&=", mark "||=", mark "|=", mark ">>>=", mark ">>=", mark "<<=",
          mark "??="])
        (.role .right expr))]

/-- The operators of each level, the loosest first. -/
def operators : List (List R) :=
  [[op "??" "="],
    [op "||" "="],
    [op "&&" "="],
    [op "|" "|="],
    [op "^" "="],
    [op "&" "&="],
    [mark "===", mark "!==", op "==" "=", op "!=" "="],
    [mark "<=", mark ">=", op "<" "<", op ">" ">", word "instanceof", word "in"],
    [mark ">>>", op ">>" ">=", op "<<" "="],
    [op "+" "+=", op "-" "-="],
    [op "*" "*=", op "/" "=", op "%" "="]]

/-- The level after all of `operators`: powers, which nest to the right. -/
def powerLevel : Nat := 11

/-- The level of comparisons, at which a private name can be looked for in an object, and an
expression can be followed by a type. -/
def relationLevel : Nat := 7

def yielding : R :=
  .node .expression (.seq (word "yield") (.opt (.seq (.check .sameLine)
    (.either (.seq (mark "*") expr) expr))))

/-- An operand of an operator; it takes assignments and arrow functions with it. -/
def operandOf (r : R) : R := any [ref .arrow, yielding, .chain r assignmentLinks]

/-- The operand on the right of an operator. -/
def operand (level : Nat) : R := .role .right (operandOf (ref (.binary level)))

def castLinks : List (Link Symbol) :=
  [.mk .cast .left [] (all [.check .sameLine, any [word "as", word "satisfies"],
    any [word "const", ref .type]])]

def binary (d : Dialect) (level : Nat) : R :=
  if level == powerLevel then
    .chain (ref .unary) [.mk .expression .left [] (.seq (op "**" "=") (operand powerLevel))]
  else
    let choices := any (operators.getD level [])
    let links := [.mk .expression .left [] (.seq choices (operand (level + 1)))]
    let tighter := ref (.binary (level + 1))
    if level == relationLevel then
      .chain (.either tighter (.seq (.token .privateName .propertyName) (.ahead (word "in"))))
        (if d.typed then castLinks ++ links else links)
    else .chain tighter links

def optionalMark : R := op "?." "0123456789"

/-- The mark of a conditional, which is no part of `??` or `?.`. -/
def questionMark (d : Dialect) : R :=
  if d.typed then op "?" "?." else .seq (.barred optionalMark) (op "?" "?")

def conditionalLink (d : Dialect) : Link Symbol :=
  let branches := all [questionMark d, .bracketed true expr, mark ":", expr]
  let untyped := all [questionMark d, .bracketed true (.untypedArrows expr), mark ":", expr]
  .mk .expression .left []
    (if d.typed then .either branches (.seq (.check .arrowTypes) untyped) else branches)

def conditional (d : Dialect) : R := .chain (ref (.binary 0)) [conditionalLink d]

def unary (d : Dialect) : R :=
  let applied (r : R) : R := .seq r (operandOf (ref .unary))
  any [
    ref .update,
    .node .expression (applied (any [mark "++", mark "--"])),
    .node .expression (applied (any [mark "!", mark "~", mark "+", mark "-", word "typeof",
      word "void", word "delete"])),
    .node .awaiting (applied (word "await")),
    if d == .typescript then .node .expression (applied (ref .typeArguments)) else .never]

def update : R :=
  .chain (ref .postfixed)
    [.mk .expression .plain [] (.seq (.check .sameLine) (any [mark "++", mark "--"]))]

def memberLinks : List (Link Symbol) :=
  [.mk .member .object [] (.seq (.either (mark ".") optionalMark)
      (.role .property (any [.token .word .propertyName, .token .privateName .propertyName]))),
    .mk .subscript .object [] (all [.opt optionalMark, mark "[",
      .role .index (.bracketed true (ref .sequence)), mark "]"])]

def templateLink : Link Symbol := .mk .call .callee [] (.role .arguments (ref .template))

def callLinks (d : Dialect) : List (Link Symbol) :=
  [.mk .call .callee [] (all [optTyped d (ref .typeArguments), .opt optionalMark,
      optTyped d (ref .typeArguments), .role .arguments (ref .arguments)]),
    templateLink]

/-- Type arguments alone after an expression, where no comparison can be meant. -/
def instantiationLinks (d : Dialect) : List (Link Symbol) :=
  let after := any [mark ";", mark ",", mark ")", mark "]", mark "\x7d", mark ":", mark ".",
    mark "?.", mark "=", .check .unitEnd, .check .newLine]
  if d.typed then [.mk .expression .plain [] (.seq (ref .typeArguments) (.ahead after))] else []

/-- An exclamation mark after an expression says that it is not null. -/
def nonNullLinks (d : Dialect) : List (Link Symbol) :=
  if d.typed then [.mk .nonNull .plain [] (.seq (.check .sameLine) (op "!" "="))] else []

def postfixed (d : Dialect) : R :=
  .chain (ref .primary) (memberLinks ++ nonNullLinks d ++ callLinks d ++ instantiationLinks d)

def creation (d : Dialect) : R :=
  .node .expression (.seq (word "new") (any [
    .seq (mark ".") (word "target"),
    all [.either (ref .creation)
        (.chain (ref .primary) (memberLinks ++ nonNullLinks d ++ [templateLink])),
      optTyped d (ref .typeArguments), .opt (ref .arguments)]]))

/-! ## Primary expressions -/

def arguments : R := .node .arguments (parens (commaHoles (.either spread expr)))

def template : R :=
  .node .template (all [mark "`",
    .many (.either (.glued .templateText .token)
      (.node .substitution (all [.glued (.symbol "$\x7b" "") .token,
        .bracketed true (ref .sequence), mark "\x7d"]))),
    .glued (.symbol "`" "") .token])

def functionWords : R := all [.opt (.seq (word "async") (.check .sameLine)), word "function"]

def functionExpression (d : Dialect) : R :=
  .node .functionExpression (all [functionWords, .opt (mark "*"), .opt (.role .name bindingName),
    signature d resultType, ref .functionBody])

def className : R := .token (.wordExcept ["extends", "implements"]) .identifier

def heritage (d : Dialect) : R :=
  let after := .ahead (any [mark "\x7b", mark ",", word "implements"])
  let base := .either (all [ref .postfixed, .opt (ref .typeArguments), after]) (.seq expr after)
  if d.typed then
    all [.opt (.seq (word "extends") (comma1 base)),
      .opt (.seq (word "implements") (comma1 (ref .type)))]
  else .opt (.seq (word "extends") expr)

def classExpression (d : Dialect) : R :=
  .node .expression (all [.many (decorator d), word "class", .opt (.role .name className),
    optTyped d (ref .typeParameters), heritage d, ref .classBody])

def primary (d : Dialect) : R :=
  any [
    .seq (.ahead functionWords) (functionExpression d),
    identifier,
    string,
    .token .number .literal,
    .token (.keyword "this") .thisWord,
    parenthesized d,
    ref .object,
    .node .expression (brackets (commaHoles (.either spread expr))),
    ref .template,
    .token (.keyword "null") .nullLiteral,
    .token (.keyword "undefined") .undefinedWord,
    .token (.keyword "true") .literal,
    .token (.keyword "false") .literal,
    .token (.keyword "super") .expression,
    .seq (.ahead (word "new")) (ref .creation),
    .node .expression (all [word "import", mark ".", word "meta"]),
    .seq (.ahead (.seq (word "import") (mark "("))) (.token (.keyword "import") .importWord),
    .seq (.ahead (.either (word "class") (mark "@"))) (classExpression d),
    .token .regex .literal,
    if d.markup then ref .element else .never]

/-! ## Arrow functions -/

def arrow (d : Dialect) : R :=
  let parameters := if d.typed then
      .either
        (all [ref .typeParameters, .role .parameters (ref .parameters),
          .opt (.seq (.check .arrowTypes) resultType), mark "=>"])
        (all [.check .arrowAhead, .role .parameters (ref .parameters),
          .opt (.seq (.check .arrowTypes) resultType), mark "=>"])
    else all [.check .arrowAhead, .role .parameters (ref .parameters), mark "=>"]
  let start := any [
    .seq identifier (mark "=>"),
    parameters,
    all [word "async", .check .sameLine, .either (.seq identifier (mark "=>")) parameters]]
  let binaryLink := .mk .expression .left [] (.seq (any operators.flatten) (operand 0))
  .chain (.node .arrow (.seq start (.either (ref .functionBody) expr)))
    (memberLinks ++ callLinks d ++ [binaryLink, conditionalLink d])

/-! ## Objects -/

/-- The name of a method with the words before it. -/
def methodHead (typed : Bool) : R :=
  let key := .seq (.role .name propertyKey) (if typed then .opt (mark "?") else .nothing)
  let isMethod := .ahead (if typed then .either (mark "(") (mark "<") else mark "(")
  let accessor := .seq (.either (word "get") (word "set")) (.check .sameLine)
  any [
    all [word "async", .check .sameLine, .opt (mark "*"), key, isMethod],
    all [word "async", .check .sameLine, accessor, key, isMethod],
    all [accessor, key, isMethod],
    all [.opt (mark "*"), key, isMethod]]

def object (d : Dialect) : R :=
  .node .object (braces (commaHoles (any [
    spread,
    .node .method (all [methodHead d.typed, signature d resultType, ref .block]),
    .node .method (all [word "static", methodHead d.typed, signature d resultType, ref .block]),
    .node .pair (all [.role .key propertyKey, mark ":", .role .value expr]),
    .token .word .shorthand])))

/-! ## Patterns -/

/-- What can be assigned to inside a pattern: a name, or a member of something. -/
def target : R :=
  let more := .ahead (any [mark ".", mark "?.", mark "[", mark "("])
  .chain (any [identifier, .token (.keyword "this") .thisWord,
      .token (.keyword "undefined") .undefinedWord])
    (memberLinks ++ [.mk .call .callee [] (.seq (.role .arguments (ref .arguments)) more)])

/-- A pattern with or without a default. -/
def defaulted : R :=
  .chain (ref .pattern) [.mk .assignmentPattern .left
    [.identifier, .pattern, .member, .subscript, .undefinedWord] (.seq equals (.role .right expr))]

def restPattern : R := .node .pattern (.seq (mark "...") (ref .pattern))

def destructuring : R :=
  .either
    (.node .pattern (brackets (commaHoles (.either restPattern defaulted))))
    (.node .pattern (braces (commaHoles (any [
      restPattern,
      .node .pattern (all [propertyKey, mark ":", defaulted]),
      .chain (.token .word .pattern) [.mk .pattern .left [.pattern] (.seq equals expr)]]))))

def pattern : R := any [restPattern, destructuring, target]

/-- A parameter with its modifiers and type. -/
def typedParameter (d : Dialect) : R :=
  let nameAhead := .ahead (any [.token .word .token, mark "[", mark "\x7b", mark "..."])
  let modifier (w : String) : R := .opt (.seq (word w) nameAhead)
  .node .parameter (all [.many (decorator d), modifier "public", modifier "private",
    modifier "protected", modifier "override", modifier "readonly",
    .role .pattern (.either (ref .pattern) (.token (.keyword "this") .thisWord)),
    .opt (mark "?"), .opt typeAnnotation, .opt initializer])

def parameters (d : Dialect) : R :=
  .node .parameters (parens (.opt (commaSome (if d.typed then typedParameter d else defaulted))))

/-! ## The top -/

def expression (d : Dialect) : R :=
  let assigned (r : R) : R := .node .assignment (.seq r (all [equals, .role .right expr]))
  any [
    ref .arrow,
    yielding,
    .seq (.check .assignmentAhead) (assigned (.role .left destructuring)),
    whenTyped d (assigned (.seq (word "using") (.role .left (.either destructuring target)))),
    .chain (ref .conditional) assignmentLinks]

def sequence : R := .chain expr [.mk .expression .plain [] (.seq (mark ",") expr)]

end AssetAudit.Script.Grammar
