import AssetAudit.Disk
import AssetAudit.Text.Blank

/-!
# References in style sheets and pages

The files that the text of a style sheet imports and that the tags of a page load. The text is only
searched for the shape of a reference, so a reference inside a comment counts too.
-/
namespace AssetAudit.Dependency

def isQuote (c : Char) : Bool := c == '\'' || c == '"'

/-- A quoted text that is not empty: what stands between the quotes, and the rest. Either quote
closes it. -/
def quoted? : List Char → Option (List Char × List Char)
  | q :: text =>
    let inner := text.takeWhile (!isQuote ·)
    if isQuote q && !inner.isEmpty then
      match text.dropWhile (!isQuote ·) with
      | _ :: rest => some (inner, rest)
      | [] => none
    else none
  | [] => none

/-- The text after one or more blanks. -/
def afterBlanks? : List Char → Option (List Char)
  | c :: rest => if Text.isBlank c then some (Text.trimStart rest) else none
  | [] => none

/-- The text after the opening of a function with the given name, blanks included. -/
def afterCall? (name text : List Char) : Option (List Char) :=
  match (Text.after? name text).map Text.trimStart with
  | some ('(' :: rest) => some (Text.trimStart rest)
  | _ => none

/-- The value of the attribute a text starts with, and the rest. -/
def attributeAt? (name text : List Char) : Option (List Char × List Char) :=
  match (Text.after? name text).map Text.trimStart with
  | some ('=' :: rest) => quoted? (Text.trimStart rest)
  | _ => none

/-- The last place before the end of a tag where `at?` finds something. -/
def lastInTag? {α : Type} (at? : List Char → Option α) : List Char → Option α
  | [] => at? []
  | '>' :: rest => at? ('>' :: rest)
  | c :: rest =>
    match lastInTag? at? rest with
    | some found => some found
    | none => at? (c :: rest)

/-- Everything `at?` finds in a text, where a find is followed by its rest and the next one is looked
for there. The first argument bounds the number of characters. -/
def findings {α : Type} (at? : List Char → Option (α × List Char)) : Nat → List Char → List α
  | 0, _ | _, [] => []
  | n + 1, c :: text =>
    match at? (c :: text) with
    | some (found, rest) => found :: findings at? n rest
    | none => findings at? n text

/-! ## Style sheets -/

/-- The address of the import a text starts with. -/
def importAt? (text : List Char) : Option (List Char × List Char) := do
  let rest ← Text.after? "@import".toList text
  let rest ← afterBlanks? rest
  quoted? ((afterCall? "url".toList rest).getD rest)

/-! ## Pages -/

/-- The address of the script tag a text starts with. -/
def scriptAt? (text : List Char) : Option (List Char × List Char) := do
  let rest ← Text.after? "<script".toList text
  let rest ← afterBlanks? rest
  lastInTag? (attributeAt? "src".toList) rest

/-- An address, the text after it up to the end of its tag, and the rest. -/
def closedAttributeAt? (name text : List Char) : Option (List Char × List Char) := do
  let (address, rest) ← attributeAt? name text
  match rest.dropWhile (· != '>') with
  | _ :: rest => some (address, rest)
  | [] => none

/-- Whether a letter, whatever its case, is the given small one. The long s is an s. -/
def isLetter (small c : Char) : Bool := c.toLower == small || (small == 's' && c == 'ſ')

/-- The text after a word of small letters, whatever the case. -/
def afterLetters? : List Char → List Char → Option (List Char)
  | [], text => some text
  | _ :: _, [] => none
  | a :: word, c :: text => if isLetter a c then afterLetters? word text else none

/-- Whether a text starts with the attribute of a style sheet. -/
def isStylesheetAt (text : List Char) : Bool :=
  match (afterLetters? "rel".toList text).map Text.trimStart with
  | some ('=' :: rest) =>
    let rest := Text.trimStart rest
    let rest := match rest with
      | q :: inner => if isQuote q then inner else rest
      | [] => rest
    (afterLetters? "stylesheet".toList rest).isSome
  | _ => false

/-- Whether the attribute of a style sheet stands anywhere in a tag. -/
def isStylesheet : List Char → Bool
  | [] => false
  | c :: rest => isStylesheetAt (c :: rest) || isStylesheet rest

/-- The address of the link tag a text starts with, if it is that of a style sheet. -/
def linkAt? (text : List Char) : Option (Option (List Char) × List Char) := do
  let rest ← Text.after? "<link".toList text
  let rest ← afterBlanks? rest
  let (address, rest) ← lastInTag? (closedAttributeAt? "href".toList) rest
  let tag := text.take (text.length - rest.length)
  let counts := Text.endsWith ".css".toList address || isStylesheet tag
  return (if counts then some address else none, rest)

/-! ## Files -/

/-- Whether an address is that of another host (`is_remote`). -/
def isRemote (address : List Char) : Bool :=
  ["http://", "https://", "//"].any fun start => Text.startsWith start.toList address

/-- The path an address leads to from a directory, if there is something (`existing_relative`). A leading
slash says nothing. -/
def existing? (disk : Disk) (directory : String) (address : List Char) : Option String :=
  if isRemote address then none
  else
    let local' := match address with
      | '/' :: rest => rest
      | _ => address
    let path := Path.normalize (Path.join directory (String.ofList local'))
    if disk.holds path then some path else none

/-- The files a style sheet imports (`css_dependencies`). -/
def ofStyle (disk : Disk) (directory content : String) : List String :=
  let text := content.toList
  (findings importAt? text.length text).filterMap (existing? disk directory)

/-- The files a page loads: its scripts, then its style sheets (`html_dependencies`). -/
def ofPage (disk : Disk) (directory content : String) : List String :=
  let text := content.toList
  (findings scriptAt? text.length text).filterMap (existing? disk directory) ++
    ((findings linkAt? text.length text).filterMap id).filterMap (existing? disk directory)

end AssetAudit.Dependency
