import AssetAudit.Json.Value

/-!
# Writing JSON

Values are written with two spaces for each level, one item or field a line. In strings the quotation
mark, the backslash and the control characters are escaped and nothing else.
-/
namespace AssetAudit.Json

def hexDigit (n : Nat) : Char := if n < 10 then Char.ofNat (48 + n) else Char.ofNat (87 + n)

def escapeChar (c : Char) : List Char :=
  if c == '"' then ['\\', '"']
  else if c == '\\' then ['\\', '\\']
  else if c == '\x08' then ['\\', 'b']
  else if c == '\x0c' then ['\\', 'f']
  else if c == '\n' then ['\\', 'n']
  else if c == '\r' then ['\\', 'r']
  else if c == '\t' then ['\\', 't']
  else if c.toNat < 0x20 then ['\\', 'u', '0', '0', hexDigit (c.toNat / 16), hexDigit (c.toNat % 16)]
  else [c]

def writeString (s : String) : List Char := '"' :: (s.toList.flatMap escapeChar ++ ['"'])

/-- A line break and the blanks of a level. -/
def newline (level : Nat) : List Char := '\n' :: List.replicate (2 * level) ' '

mutual

/-- The text of a value that stands at a level. -/
def writeValue (level : Nat) : Value → List Char
  | .null => "null".toList
  | .bool true => "true".toList
  | .bool false => "false".toList
  | .number literal => literal.toList
  | .text s => writeString s
  | .list [] => ['[', ']']
  | .list (item :: items) =>
    '[' :: (newline (level + 1) ++ writeValue (level + 1) item ++ writeItems (level + 1) items ++
      newline level ++ [']'])
  | .object [] => ['\x7b', '\x7d']
  | .object ((key, v) :: fields) =>
    '\x7b' :: (newline (level + 1) ++ writeString key ++ [':', ' '] ++ writeValue (level + 1) v ++
      writeFields (level + 1) fields ++ newline level ++ ['\x7d'])

/-- The items after the first one. -/
def writeItems (level : Nat) : List Value → List Char
  | [] => []
  | item :: items => ',' :: (newline level ++ writeValue level item ++ writeItems level items)

/-- The fields after the first one. -/
def writeFields (level : Nat) : List (String × Value) → List Char
  | [] => []
  | (key, v) :: fields =>
    ',' :: (newline level ++ writeString key ++ [':', ' '] ++ writeValue level v ++
      writeFields level fields)

end

def pretty (v : Value) : String := String.ofList (writeValue 0 v)

end AssetAudit.Json
