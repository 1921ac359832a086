import AssetAudit.Json.Reader
import AssetAudit.SourceMap.Vlq
import AssetAudit.Text.Search

/-!
# Source maps

A map says where places of a generated text come from. A flat map is a list of tokens, ordered by the
generated place where each starts to hold; a map of sections hands a place on to the last section
that starts before it. Lines and columns are counted from zero here and have 32 bits.
-/
namespace AssetAudit.SourceMap

structure Token where
  line : Nat
  column : Nat
  /-- Number of the source, if the place comes from one. -/
  source : Option Nat
  sourceLine : Nat
  sourceColumn : Nat
  /-- Whether columns after the start are mapped to columns after the start. -/
  isRange : Bool
  deriving DecidableEq, Repr

inductive Mapping where
  | flat (tokens : List Token) (sources : List String)
  | sections (parts : List ((Nat × Nat) × Mapping))

/-! ## Mappings text -/

def wordSize : Nat := 4294967296

/-- A running 32-bit number after a step. -/
def moved (n : Nat) (step : Int) : Nat := (((n : Int) + step) % (wordSize : Int)).toNat

/-- The running numbers of a mappings text. -/
structure Running where
  column : Nat := 0
  source : Nat := 0
  sourceLine : Nat := 0
  sourceColumn : Nat := 0
  name : Nat := 0

/-- The next token and the running numbers after it, from the numbers of its segment. -/
def token? (sourceCount nameCount line : Nat) (isRange : Bool) (now : Running) :
    List Int → Option (Token × Running)
  | [column] =>
    let now := { now with column := moved now.column column }
    some (⟨line, now.column, none, now.sourceLine, now.sourceColumn, isRange⟩, now)
  | column :: source :: sourceLine :: sourceColumn :: name =>
    let now := { now with
      column := moved now.column column
      source := moved now.source source
      sourceLine := moved now.sourceLine sourceLine
      sourceColumn := moved now.sourceColumn sourceColumn }
    let now? :=
      match name with
      | [] => some now
      | [name] =>
        let now := { now with name := moved now.name name }
        if now.name < nameCount then some now else none
      | _ => none
    if now.source < sourceCount then
      now?.map fun now =>
        (⟨line, now.column, some now.source, now.sourceLine, now.sourceColumn, isRange⟩, now)
    else none
  | _ => none

/-- The six bits of a digit, lowest first. -/
def bits (digit : Nat) : List Bool := (List.range 6).map fun i => digit.testBit i

/-- The segments of a line that are ranges, as a list of bits. -/
def rangeBits? (text : List Char) : Option (List Bool) :=
  (text.mapM Text.Base64.digit?).map fun digits => digits.flatMap bits

/-- The tokens of the segments of one line, and the running numbers after them. -/
def lineTokens? (sourceCount nameCount line : Nat) :
    List Bool → Running → List (List Char) → Option (List Token × Running)
  | _, now, [] => some ([], now)
  | ranges, now, segment :: rest =>
    if segment.isEmpty then lineTokens? sourceCount nameCount line ranges.tail now rest
    else do
      let numbers ← numbers? segment
      let (token, now) ← token? sourceCount nameCount line (ranges.headD false) now numbers
      let (tokens, now) ← lineTokens? sourceCount nameCount line ranges.tail now rest
      return (token :: tokens, now)

/-- The tokens of all lines from a line on. -/
def linesTokens? (sourceCount nameCount line : Nat) :
    List (List Char) → Running → List (List Char) → Option (List Token)
  | _, _, [] => some []
  | ranges, now, text :: rest =>
    if text.isEmpty then linesTokens? sourceCount nameCount (line + 1) ranges.tail now rest
    else do
      let bits ← rangeBits? (ranges.headD [])
      let (tokens, now) ← lineTokens? sourceCount nameCount line bits { now with column := 0 }
        (Text.splitAt ',' text)
      let later ← linesTokens? sourceCount nameCount (line + 1) ranges.tail now rest
      return tokens ++ later

/-- Whether one place is not after another. -/
def notAfter (a b : Nat × Nat) : Bool := a.1 < b.1 || (a.1 == b.1 && a.2 ≤ b.2)

/-- Where a token starts to hold. -/
def Token.start (token : Token) : Nat × Nat := (token.line, token.column)

def tokens? (sourceCount nameCount : Nat) (mappings rangeMappings : String) :
    Option (List Token) :=
  (linesTokens? sourceCount nameCount 0 (Text.splitAt ';' rangeMappings.toList) {}
    (Text.splitAt ';' mappings.toList)).map fun tokens => tokens.mergeSort fun a b => notAfter a.start b.start

/-! ## Decoding -/

/-- The text after a guard line: one that starts with any of the characters of the usual guard runs to
the first line feed, and no carriage return may stand alone in it. -/
def afterGuard? : List Char → Option (List Char)
  | [] => some []
  | '\n' :: rest => some ('\n' :: rest)
  | '\r' :: '\n' :: rest => some ('\n' :: rest)
  | '\r' :: _ => none
  | _ :: rest => afterGuard? rest

def withoutGuard? (text : List Char) : Option (List Char) :=
  match text with
  | c :: _ => if [')', ']', '\x7d', '\''].contains c then afterGuard? text else some text
  | [] => some []

/-- A source as it is looked up, under the root directory of the sources. -/
def underRoot (root source : String) : String :=
  let starts (text : String) : Bool := Text.startsWith text.toList source.toList
  if root.isEmpty || starts "/" || starts "http:" || starts "https:" then source
  else
    let root := if root.toList.getLast? == some '/' then String.ofList root.toList.dropLast else root
    root ++ "/" ++ source

/-- The identifier of a build: hexadecimal digits, hyphens aside. -/
def buildId? (v : Json.Value) : Option String :=
  v.string?.filter fun text =>
    let digits := text.toList.filter (· != '-')
    digits.all (fun c => (Json.hexValue? c).isSome) && 32 ≤ digits.length && digits.length ≤ 40

def keys : List String :=
  ["version", "file", "sources", "sourceRoot", "sourcesContent", "sections", "names",
    "rangeMappings", "mappings", "ignoreList", "x_facebook_offsets", "x_metro_module_paths",
    "x_facebook_sources", "debug_id", "debugId"]

def word? : Json.Value → Option Nat := Json.Value.natBelow? wordSize

/-- A field that may be missing or null. -/
def field? {α : Type} (fields : List (String × Json.Value)) (key : String)
    (decode : Json.Value → Option α) : Option (Option α) :=
  Json.optional? fields key none (Json.Value.optional? decode)

/-- The flat map of the fields of a map. -/
def decodeFlat? (fields : List (String × Json.Value)) : Option Mapping := do
  let sources ← field? fields "sources"
    (Json.Value.all? (Json.Value.optional? Json.Value.string?))
  let names ← field? fields "names" (Json.Value.all? some)
  let root ← field? fields "sourceRoot" Json.Value.string?
  let mappings ← field? fields "mappings" Json.Value.string?
  let ranges ← field? fields "rangeMappings" Json.Value.string?
  let sources := (sources.getD []).map (·.getD "")
  let tokens ← tokens? sources.length (names.getD []).length (mappings.getD "") (ranges.getD "")
  return .flat tokens (sources.map (underRoot (root.getD "")))

/-- Whether the fields that a lookup does not need have their types too. -/
def hasProperFields (fields : List (String × Json.Value)) : Bool :=
  let proper {α : Type} (key : String) (decode : Json.Value → Option α) : Bool :=
    (field? fields key decode).isSome
  proper "version" word? && proper "sources" (Json.Value.all? (Json.Value.optional? Json.Value.string?)) &&
    proper "sourceRoot" Json.Value.string? &&
    proper "sourcesContent" (Json.Value.all? (Json.Value.optional? Json.Value.string?)) &&
    proper "names" (Json.Value.all? some) && proper "rangeMappings" Json.Value.string? &&
    proper "mappings" Json.Value.string? && proper "ignoreList" (Json.Value.all? word?) &&
    proper "x_facebook_offsets" (Json.Value.all? (Json.Value.optional? word?)) &&
    proper "x_metro_module_paths" (Json.Value.all? Json.Value.string?) &&
    proper "debug_id" buildId? && proper "debugId" buildId?

/-- Nested maps that fit in the nesting a JSON text may have. -/
def nestingLimit : Nat := 43

/-- A section: where it starts, and its map. -/
def decodeSection? (decode : Json.Value → Option Mapping) (v : Json.Value) :
    Option ((Nat × Nat) × Mapping) := do
  let fields ← v.record? ["offset", "url", "map"]
  let (line, column) ← Json.required? fields "offset" fun offset => do
    let fields ← offset.record? ["line", "column"]
    let line ← Json.required? fields "line" word?
    let column ← Json.required? fields "column" word?
    return (line, column)
  let _ ← field? fields "url" Json.Value.string?
  let map ← field? fields "map" decode
  return ((line, column), map.getD (.flat [] []))

/-- The map a value describes, nested at most as deep as the first argument says. -/
def decodeValue? : Nat → Json.Value → Option Mapping
  | n + 1, .object all => do
    let fields ← (Json.Value.object all).record? keys
    if !hasProperFields fields then none
    match ← field? fields "sections" Json.Value.list? with
    | none => decodeFlat? fields
    | some items =>
      let parts ← items.mapM (decodeSection? (decodeValue? n))
      return .sections (parts.mergeSort fun a b => notAfter a.1 b.1)
  | _, _ => none

/-- The map a text writes. -/
def decode? (text : String) : Option Mapping := do
  let body ← withoutGuard? text.toList
  let value ← Json.parse? (String.ofList body)
  decodeValue? nestingLimit value

/-! ## Looking up -/

/-- Where a token leads. -/
structure Target where
  /-- The line of the generated text on which the token stands. -/
  line : Nat
  source : Option String
  sourceLine : Nat
  sourceColumn : Nat
  deriving DecidableEq, Repr

def Token.target (sources : List String) (column : Nat) (token : Token) : Target :=
  let offset := if token.isRange then column - token.column else 0
  ⟨token.line, token.source.bind (sources[·]?), token.sourceLine,
    min (token.sourceColumn + offset) (wordSize - 1)⟩

/-- The token that holds at a place: the first of those that start there, or else the last that starts
before. The tokens are ordered by their start. -/
def holding? (place : Nat × Nat) (tokens : List Token) : Option Token :=
  match tokens.find? (·.start == place) with
  | some token => some token
  | none => tokens.reverse.find? (notAfter ·.start place)

mutual

/-- Where the token that holds at a place leads. -/
def Mapping.lookup? (line column : Nat) : Mapping → Option Target
  | .flat tokens sources => (holding? (line, column) tokens).map (Token.target sources column)
  | .sections parts => lookupIn? line column none parts

/-- Look up in the section that holds at a place, `found` being what the one before says. -/
def lookupIn? (line column : Nat) (found : Option Target) :
    List ((Nat × Nat) × Mapping) → Option Target
  | [] => found
  | (start, map) :: rest =>
    let inner := map.lookup? (line - start.1) (if line == start.1 then column - start.2 else column)
    if start == (line, column) then inner
    else if notAfter start (line, column) then lookupIn? line column inner rest
    else found

end

end AssetAudit.SourceMap
