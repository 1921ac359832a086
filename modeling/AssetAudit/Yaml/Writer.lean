import AssetAudit.Json.Value
import AssetAudit.Yaml.Scalar

/-!
# Writing YAML

Values in block style: two spaces for each level, the items of a list under their key at the same
indent. Empty lists and objects are written with brackets.
-/
namespace AssetAudit.Yaml

open Json (Value)

/-- What starts a new line at an indent after a text. A literal block may have ended its line
already. -/
def newline (indent : Nat) (before : List Char) : List Char :=
  if before.getLast?.any isBreak then spaces indent else '\n' :: spaces indent

/-- Texts on lines of their own at an indent. -/
def stack (indent : Nat) : List (List Char) → List Char
  | [] => []
  | [text] => text
  | text :: rest => text ++ newline indent text ++ stack indent rest

/-- Bytes a key may have before its colon on one line. -/
def keyLimit : Nat := 128

/-- Whether a key stands on one line with its colon. -/
def isSimpleKey (key : String) : Bool := !hasBreak key.toList && key.utf8ByteSize ≤ keyLimit

/-- Whether a value is a list with items. -/
def hasItems : Value → Bool
  | .list (_ :: _) => true
  | _ => false

/-- Whether a value is an object with fields. -/
def hasFields : Value → Bool
  | .object (_ :: _) => true
  | _ => false

mutual

/-- A value whose first line starts at the indent. -/
def writeBlock (indent : Nat) : Value → List Char
  | .null => "null".toList
  | .bool true => "true".toList
  | .bool false => "false".toList
  | .number literal => literal.toList
  | .text s => writeScalar indent s
  | .list items => if items.isEmpty then ['[', ']'] else stack indent (writeItems indent items)
  | .object fields =>
    if fields.isEmpty then ['\x7b', '\x7d'] else stack indent (writeFields indent fields)

def writeItems (indent : Nat) : List Value → List (List Char)
  | [] => []
  | item :: items => ('-' :: ' ' :: writeBlock (indent + 2) item) :: writeItems indent items

/-- The fields of an object. A key that is too long or has a line break is marked, and its value
follows on a line of its own. -/
def writeFields (indent : Nat) : List (String × Value) → List (List Char)
  | [] => []
  | (key, v) :: fields =>
    let head := writeScalar (indent + 2) key
    let entry :=
      if !isSimpleKey key then
        let head := '?' :: ' ' :: head
        head ++ newline indent head ++ ':' :: ' ' :: writeBlock (indent + 2) v
      else if hasItems v then head ++ ':' :: '\n' :: spaces indent ++ writeBlock indent v
      else if hasFields v then
        head ++ ':' :: '\n' :: spaces (indent + 2) ++ writeBlock (indent + 2) v
      else head ++ ':' :: ' ' :: writeBlock (indent + 2) v
    entry :: writeFields indent fields

end

/-- A value as a document. -/
def document (v : Value) : String :=
  let text := writeBlock 0 v
  String.ofList (text ++ newline 0 text)

end AssetAudit.Yaml
