import AssetAudit.Script.Dialect
import AssetAudit.Script.Rule

/-!
# Symbols of the script grammar

The symbols through which the grammar refers to itself, and the small rules that all of its parts
use.
-/
namespace AssetAudit.Script

inductive Symbol where
  | statement
  | declaration
  | block
  /-- A block that is the body of a function inside an expression. -/
  | functionBody
  | expression
  | sequence
  | arrow
  | conditional
  /-- Binary operators; a higher level binds tighter. -/
  | binary (level : Nat)
  | unary
  | update
  | postfixed
  | primary
  | creation
  | arguments
  | template
  | object
  | pattern
  | parameters
  | classBody
  | element
  | type
  | union
  | intersection
  | typeOperator
  | typeArguments
  | typeParameters
  | objectType
  deriving DecidableEq, Repr

namespace Grammar

open Rule

abbrev R := Rule Symbol

def ref (s : Symbol) : R := .sym s

def expr : R := ref .expression

/-- The rule in dialects with types only. -/
def whenTyped (d : Dialect) (r : R) : R := if d.typed then r else .never

/-- The rule, where it may be left out, in dialects with types only. -/
def optTyped (d : Dialect) (r : R) : R := if d.typed then .opt r else .nothing

def identifier : R := .token .identifier .identifier

/-- A name where no expression is possible, so that any word will do. -/
def bindingName : R := .token .word .identifier

def string : R := .token .quoted .string

def parens (r : R) : R := all [mark "(", .bracketed true r, mark ")"]

def braces (r : R) : R := all [mark "\x7b", .bracketed true r, mark "\x7d"]

def brackets (r : R) : R := all [mark "[", .bracketed true r, mark "]"]

def spread : R := .node .expression (.seq (mark "...") expr)

/-- An equals sign that is no part of a comparison or an arrow. -/
def equals : R := op "=" "=>"

def initializer : R := .seq equals (.role .value expr)

/-- The name of a property of an object or a class. -/
def propertyKey : R :=
  any [.token .word .propertyName, string, .token .number .literal,
    .token .privateName .propertyName, .node .propertyName (brackets expr)]

/-- The parameters of a function, and in typed dialects its type parameters and result. -/
def signature (d : Dialect) (result : R) : R :=
  all [optTyped d (ref .typeParameters), .role .parameters (ref .parameters), optTyped d result]

/-- What is said of the result after the parameters. -/
def resultType : R :=
  .node .type (.seq (mark ":") (any [
    all [.opt (word "asserts"), .token .word .type, word "is", ref .type],
    all [word "asserts", .token .word .type, .barred (mark ".")],
    ref .type]))

def typeAnnotation : R := .node .type (.seq (mark ":") (ref .type))

/-- An expression in parentheses; in typed dialects its type may be stated. -/
def parenthesized (d : Dialect) : R :=
  .node .parenthesized (parens (.seq (ref .sequence) (optTyped d typeAnnotation)))

def decorator (d : Dialect) : R :=
  .node .expression (.seq (mark "@") (any [
    whenTyped d (parenthesized d),
    .chain identifier [
      .mk .member .object [] (.seq (mark ".") (.role .property (any [
        .token .word .propertyName, .token .privateName .propertyName]))),
      .mk .call .callee [.identifier, .member]
        (.seq (optTyped d (ref .typeArguments)) (.role .arguments (ref .arguments)))]]))

end Grammar
end AssetAudit.Script
