import AssetAudit.Text.Blank
import AssetAudit.Text.Lowercase
import AssetAudit.Text.Search

/-!
# License comments

Comments that hold a licence are made blank. Every other character keeps its line and column: line
ends inside a comment stay, and every other character of it becomes a space.
-/
namespace AssetAudit.License

/-- What a character of a blanked comment becomes. -/
def blankChar (c : Char) : Char := if c == '\n' || c == '\r' then c else ' '

def blank (text : List Char) : List Char := text.map blankChar

/-- Whether a text may hold a license comment. -/
def mayHold (text : List Char) : Bool :=
  Text.contains "license".toList (text.map Char.toLower) || Text.contains "/*!".toList text

/-- The number of characters up to and with the end of a block comment, counted from `count`. -/
def commentLength? (count : Nat) : List Char → Option Nat
  | '*' :: '/' :: _ => some (count + 2)
  | _ :: rest => commentLength? (count + 1) rest
  | [] => none

/-- The length of the block comment a text starts with. -/
def blockLength? : List Char → Option Nat
  | '/' :: '*' :: rest => commentLength? 2 rest
  | _ => none

/-- Whether a block comment holds a license. -/
def isLicense (comment : List Char) : Bool :=
  Text.startsWith "/*!".toList comment ||
    Text.contains "license".toList (Text.lowercase (String.ofList comment)).toList

/-- The length of the license comment that a text starts with and that runs to the end of its line. -/
def lineLength? : List Char → Option Nat
  | '/' :: '/' :: rest =>
    let blanks := rest.takeWhile Text.isBlank
    match Text.after? "@license".toList (rest.dropWhile Text.isBlank) with
    | some rest =>
      some (2 + blanks.length + "@license".length + (rest.takeWhile (· != '\n')).length)
    | none => none
  | _ => none

/-- How the next characters are copied. -/
inductive Copy where
  /-- As they are, or looking for a comment if none is left. -/
  | plain (left : Nat)
  | blanked (left : Nat)

/-- Copy a text, where `next` says how to copy the comment that starts it, if one does. -/
def copy (next : List Char → Copy) : Copy → List Char → List Char
  | _, [] => []
  | .plain (n + 1), c :: rest => c :: copy next (.plain n) rest
  | .blanked (n + 1), c :: rest => blankChar c :: copy next (.blanked n) rest
  | _, c :: rest =>
    match next (c :: rest) with
    | .plain (n + 1) => c :: copy next (.plain n) rest
    | .blanked (n + 1) => blankChar c :: copy next (.blanked n) rest
    | _ => c :: copy next (.plain 0) rest

def nextBlock (text : List Char) : Copy :=
  match blockLength? text with
  | some n => if isLicense (text.take n) then .blanked n else .plain n
  | none => .plain 0

def nextLine (text : List Char) : Copy :=
  match lineLength? text with
  | some n => .blanked n
  | none => .plain 0

/-- The text with its license comments made blank: first the block comments, then the line comments
(`clean_license_comments`). -/
def clean (content : String) : String :=
  let text := content.toList
  if mayHold text then
    String.ofList (copy nextLine (.plain 0) (copy nextBlock (.plain 0) text))
  else content

end AssetAudit.License
