import AssetAudit.Text.Position

/-!
# Syntax trees of scripts

A tree keeps every token of the unit it was read from, so the spans of a node's children lie inside
its own span and in order. Kinds name what the facts of a unit are drawn from; the remaining forms
of the language share `expression`, `statement`, `declaration`, `type`, `pattern` and `markup`. A
role says what a child is to its parent.
-/
namespace AssetAudit.Script

/-- What a node is. -/
inductive Kind where
  | token
  | comment
  | program
  | statement
  | expressionStatement
  | block
  | declaration
  | varDeclaration
  | lexicalDeclaration
  | declarator
  | functionDeclaration
  | generatorDeclaration
  | classDeclaration
  | method
  | parameters
  | parameter
  | assignmentPattern
  | pattern
  | importStatement
  | importClause
  | namespaceImport
  | namedImports
  | importSpecifier
  | exportStatement
  | defaultWord
  | star
  | namespaceExport
  | exportClause
  | exportSpecifier
  | expression
  | identifier
  | propertyName
  | thisWord
  | importWord
  | nullLiteral
  | undefinedWord
  | literal
  | string
  | template
  | substitution
  | object
  | pair
  | shorthand
  | parenthesized
  | member
  | subscript
  | call
  | arguments
  | assignment
  | awaiting
  | cast
  | nonNull
  | arrow
  | functionExpression
  | type
  | markup
  deriving DecidableEq, Repr

/-- What a child is to its parent. -/
inductive Role where
  | plain
  | name
  | localName
  | value
  | left
  | right
  | object
  | property
  | index
  | callee
  | arguments
  | parameters
  | pattern
  | key
  | source
  | declaration
  deriving DecidableEq, Repr

inductive Tree where
  | mk (kind : Kind) (role : Role) (span : Span) (children : List Tree)
  deriving Repr

namespace Tree

def kind : Tree → Kind
  | mk k _ _ _ => k

def role : Tree → Role
  | mk _ r _ _ => r

def span : Tree → Span
  | mk _ _ s _ => s

def children : Tree → List Tree
  | mk _ _ _ cs => cs

def withRole (t : Tree) (r : Role) : Tree := mk t.kind r t.span t.children

/-- The first child in a role. -/
def child? (t : Tree) (r : Role) : Option Tree := t.children.find? (·.role == r)

/-- The children that are no punctuation. -/
def named (t : Tree) : List Tree := t.children.filter (·.kind != .token)

/-- The characters of a node. -/
def chars (t : Tree) (text : List Char) : List Char := Text.slice text t.span

def text (t : Tree) (unit : List Char) : String := String.ofList (t.chars unit)

end Tree

/-- A node together with the nodes around it, the nearest first. -/
structure Visit where
  around : List Tree
  node : Tree

mutual

/-- A tree and all trees below it, parents before children, children from left to right. -/
def Tree.visitsFrom (around : List Tree) : Tree → List Visit
  | .mk k r s cs => ⟨around, .mk k r s cs⟩ :: forestVisits (.mk k r s cs :: around) cs

def forestVisits (around : List Tree) : List Tree → List Visit
  | [] => []
  | t :: ts => t.visitsFrom around ++ forestVisits around ts

end

def Tree.visits (t : Tree) : List Visit := t.visitsFrom []

end AssetAudit.Script
