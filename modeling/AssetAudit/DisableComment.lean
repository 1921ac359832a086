import AssetAudit.Text.Blank
import AssetAudit.Text.Search

/-!
# Disabling comments

A comment can switch the scan off for its file, its line or the next line. It starts right after the
marks that open a comment, blanks aside, and is followed by a blank, the end of a block comment or the
end of the line.
-/
namespace AssetAudit.DisableComment

inductive Scope where
  | file
  | line
  | nextLine
  deriving DecidableEq, Repr

def keyword : List Char := "side-effect-scanner-disable".toList

/-- The scope the text after the keyword states, and the text after it. -/
def scopeOf (text : List Char) : Scope × List Char :=
  match Text.after? "-next-line".toList text with
  | some rest => (.nextLine, rest)
  | none =>
    match Text.after? "-line".toList text with
    | some rest => (.line, rest)
    | none => (.file, text)

/-- The text after what ends a comment's keyword. -/
def afterEnd? : List Char → Option (List Char)
  | [] => some []
  | '*' :: '/' :: rest => some rest
  | c :: rest => if Text.isBlank c then some rest else none

/-- The text after the marks that open a comment. -/
def afterOpening? : List Char → Option (List Char)
  | '/' :: '/' :: rest | '/' :: '*' :: rest => some rest
  | _ => none

/-- The scope of the comment a text starts with, and the text after it (`MAGIC_COMMENT`). -/
def scopeAt? (text : List Char) : Option (Scope × List Char) := do
  let rest ← afterOpening? text
  let rest ← Text.after? keyword (Text.trimStart rest)
  let (scope, rest) := scopeOf rest
  let rest ← afterEnd? rest
  return (scope, rest)

/-- The scopes of the comments of a line, of which the first characters are `passed` over. -/
def scopesFrom : Nat → List Char → List Scope
  | _, [] => []
  | passed + 1, _ :: rest => scopesFrom passed rest
  | 0, c :: rest =>
    match scopeAt? (c :: rest) with
    | some (scope, after) => scope :: scopesFrom (rest.length - after.length) rest
    | none => scopesFrom 0 rest

def scopes (line : List Char) : List Scope := scopesFrom 0 line

/-- The scopes of the comments of all lines, each with the number of its line. -/
def lineScopes (content : String) : List (Scope × Nat) :=
  ((Text.lines content.toList).zipIdx 1).flatMap fun (line, number) =>
    (scopes line).map fun scope => (scope, number)

/-- The scopes of the comments of a text, each with the number of its line (`scan_magic_comments`). The
lines of a text without the keyword are not searched. -/
def allScopes (content : String) : List (Scope × Nat) :=
  if Text.contains keyword content.toList then lineScopes content else []

/-- Whether a comment switches off the whole file. -/
def disablesFile (content : String) : Bool := (allScopes content).any (·.1 == .file)

def lineOf? : Scope × Nat → Option Nat
  | (.file, _) => none
  | (.line, number) => some number
  | (.nextLine, number) => some (number + 1)

/-- The lines that comments switch off, in order and each once. -/
def disabledLines (content : String) : List Nat :=
  (((allScopes content).filterMap lineOf?).mergeSort (· ≤ ·)).eraseDups

end AssetAudit.DisableComment
