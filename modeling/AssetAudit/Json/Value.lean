/-!
# JSON values

Numbers are kept as they are written, so nothing is lost before it is known what kind of number is
wanted. Objects keep the order of their fields, and repeated keys.
-/
namespace AssetAudit.Json

inductive Value where
  | null
  | bool (b : Bool)
  | number (literal : String)
  | text (s : String)
  | list (items : List Value)
  | object (fields : List (String × Value))
  deriving Inhabited

namespace Value

def ofNat (n : Nat) : Value := .number (toString n)

def ofStrings (items : List String) : Value := .list (items.map .text)

def string? : Value → Option String
  | .text s => some s
  | _ => none

def bool? : Value → Option Bool
  | .bool b => some b
  | _ => none

def list? : Value → Option (List Value)
  | .list items => some items
  | _ => none

/-- A natural number below `bound`, written without sign, point or exponent. -/
def natBelow? (bound : Nat) : Value → Option Nat
  | .number literal =>
    if literal.toList.all Char.isDigit then
      let n := literal.toList.foldl (fun n c => 10 * n + (c.toNat - 48)) 0
      if n < bound then some n else none
    else none
  | _ => none

/-- A count or a line number. -/
def nat? : Value → Option Nat := natBelow? (Nat.pow 2 64)

/-- Nothing for `null`, and otherwise what `decode` gives. -/
def optional? {α : Type} (decode : Value → Option α) : Value → Option (Option α)
  | .null => some none
  | v => (decode v).map some

/-- A list of which every item can be decoded. -/
def all? {α : Type} (decode : Value → Option α) (v : Value) : Option (List α) :=
  (v.list?).bind fun items => items.mapM decode

/-- The fields of a record that has the given keys: an object, in which no key of the record may be
repeated and other keys do not count, or a list of the first fields in their order. -/
def record? (keys : List String) : Value → Option (List (String × Value))
  | .object fields =>
    let known := fields.filter fun field => keys.contains field.1
    if (known.map (·.1)).eraseDups.length == known.length then some known else none
  | .list items => if items.length ≤ keys.length then some (keys.zip items) else none
  | _ => none

end Value

/-- The field of a record, decoded; nothing if it is missing or cannot be decoded. -/
def required? {α : Type} (fields : List (String × Value)) (key : String)
    (decode : Value → Option α) : Option α :=
  (fields.lookup key).bind decode

/-- The field of a record, decoded, or the fallback if it is missing. -/
def optional? {α : Type} (fields : List (String × Value)) (key : String) (fallback : α)
    (decode : Value → Option α) : Option α :=
  match fields.lookup key with
  | some v => decode v
  | none => some fallback

end AssetAudit.Json
