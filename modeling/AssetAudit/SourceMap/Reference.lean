import AssetAudit.Text.Base64
import AssetAudit.Text.Blank
import AssetAudit.Text.Search

/-!
# References to source maps

The last comment that names a source map and ends its line. The map is part of the comment or a file.
-/
namespace AssetAudit.SourceMap

inductive Reference where
  | inline (map : String)
  | external (url : String)
  deriving DecidableEq, Repr

/-- The text after the marks that open a reference. -/
def afterOpening? : List Char → Option (List Char)
  | '/' :: '/' :: c :: rest | '/' :: '*' :: c :: rest =>
    if c == '#' || c == '@' then some rest else none
  | _ => none

def isUrlChar (c : Char) : Bool := !Text.isBlank c && c != '*'

/-- Whether blanks, if any, lead to a line end or the end of the text. -/
def blanksEndLine (text : List Char) : Bool :=
  (text.takeWhile Text.isBlank).contains '\n' || text.all Text.isBlank

/-- Whether the rest of a line after an address is blank but for the end of a comment. -/
def endsLine (text : List Char) : Bool :=
  blanksEndLine text ||
    match Text.after? ['*', '/'] (text.dropWhile Text.isBlank) with
    | some rest => blanksEndLine rest
    | none => false

/-- The address of a reference that starts the text. -/
def urlAt? (text : List Char) : Option (List Char) := do
  let rest ← afterOpening? text
  let rest ← Text.after? "sourceMappingURL=".toList (rest.dropWhile Text.isBlank)
  let url := rest.takeWhile isUrlChar
  if !url.isEmpty && endsLine (rest.dropWhile isUrlChar) then some url else none

/-- The last reference of a text, `last` being the last one before it. The characters of a reference
are `passed` over before the next one is looked for. -/
def lastUrl (last : Option (List Char)) : Nat → List Char → Option (List Char)
  | _, [] => last
  | passed + 1, _ :: rest => lastUrl last passed rest
  | 0, c :: rest =>
    match urlAt? (c :: rest) with
    | some url =>
      let blanks := (rest.drop 2).takeWhile Text.isBlank
      lastUrl (some url) (2 + blanks.length + "sourceMappingURL=".length + url.length) rest
    | none => lastUrl last 0 rest

/-- What an address refers to: the data in it, or else a file. Data that is not text in base 64 is no
map. -/
def ofUrl? (url : List Char) : Option Reference :=
  match Text.after? "data:".toList url with
  | none => some (.external (String.ofList url))
  | some data =>
    let kind := data.takeWhile (· != ',')
    match data.dropWhile (· != ',') with
    | [] => none
    | _ :: payload =>
      if Text.endsWith ";base64".toList kind then
        (Text.Base64.decodeText? payload).map .inline
      else none

/-- The map a text refers to (`find_map_reference`). -/
def reference? (content : String) : Option Reference :=
  (lastUrl none 0 content.toList).bind ofUrl?

end AssetAudit.SourceMap
