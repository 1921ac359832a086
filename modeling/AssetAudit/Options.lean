import AssetAudit.Json.Number
import AssetAudit.Json.Reader
import AssetAudit.Rules

/-!
# Scan options

What a scan is told to do, as a configuration file or a caller states it. Unknown keys do not count,
but their values have to be proper values too.
-/
namespace AssetAudit

/-- An entry of the ignore list: a pattern, or a file with or without line numbers. -/
inductive IgnoreEntry where
  | pattern (glob : String)
  | file (path : String) (lines : Option (List Nat))
  deriving DecidableEq, Repr

inductive ReportFormat where
  | json
  | yaml
  deriving DecidableEq, Repr

namespace ReportFormat

def name : ReportFormat → String
  | json => "json"
  | yaml => "yaml"

end ReportFormat

structure Options where
  entry : String := "index.ts"
  dir : Option String := none
  maxDepth : Option Nat := none
  /-- Import aliases, sorted by key and each key once. -/
  aliases : List (String × String) := []
  ignored : List IgnoreEntry := []
  /-- Whether the assets are build output. -/
  compile : Bool := true
  /-- The directory whose sources count as unknown. -/
  unknownDir : String := "dist"
  ignoredGlobals : List String := ["webpackChunk_*"]
  ignorePaths : List String := ["node_modules"]
  verbose : Bool := false
  output : Option String := none
  format : ReportFormat := .json
  rules : Rules := {}
  deriving DecidableEq, Repr, Inhabited

namespace Options

/-- The path a scan starts from: the directory if there is one, else the entry file (`scan_root`). -/
def scanRoot (options : Options) : String := options.dir.getD options.entry

/-- The alias table with one more alias, which replaces one of the same key. -/
def insertAlias (key target : String) : List (String × String) → List (String × String)
  | [] => [(key, target)]
  | (k, t) :: rest =>
    if key == k then (key, target) :: rest
    else if key < k then (key, target) :: (k, t) :: rest
    else (k, t) :: insertAlias key target rest

end Options

/-! ## Decoding -/

namespace IgnoreEntry

def decode? (v : Json.Value) : Option IgnoreEntry :=
  match v with
  | .text glob => some (.pattern glob)
  | .object _ => do
    let fields ← v.record? ["file", "lines"]
    let path ← Json.required? fields "file" Json.Value.string?
    let lines ← Json.optional? fields "lines" none
      (Json.Value.optional? (Json.Value.all? Json.Value.nat?))
    return .file path lines
  | _ => none

end IgnoreEntry

namespace ReportFormat

def decode? : Json.Value → Option ReportFormat
  | .text "json" | .object [("json", .null)] => some .json
  | .text "yaml" | .object [("yaml", .null)] => some .yaml
  | _ => none

end ReportFormat

namespace Options

/-- The keys of the options other than the toggles. -/
def keys : List String :=
  ["entry", "dir", "maxDepth", "alias", "ignore", "compile", "unknownDir", "ignoredGlobalVars",
    "ignorePaths", "verbose", "output", "format"]

/-- Nesting allowed in the value of a key that is not an option. -/
def depthLimit : Nat := 126

mutual

/-- Whether a value is nested at most `limit` deep and has no number out of range. -/
def isProper (limit : Nat) : Json.Value → Bool
  | .number literal => Json.Number.isFinite literal
  | .list items => limit > 0 && areProper (limit - 1) items
  | .object fields => limit > 0 && areProperFields (limit - 1) fields
  | _ => true

def areProper (limit : Nat) : List Json.Value → Bool
  | [] => true
  | v :: rest => isProper limit v && areProper limit rest

def areProperFields (limit : Nat) : List (String × Json.Value) → Bool
  | [] => true
  | (_, v) :: rest => isProper limit v && areProperFields limit rest

end

def decodeAlias? : Json.Value → Option (List (String × String))
  | .object fields =>
    fields.foldlM (fun table (key, v) => v.string?.map fun target => insertAlias key target table) []
  | _ => none

def decodeFields? (fields : List (String × Json.Value)) : Option Options := do
  let base : Options := {}
  let known ← (Json.Value.object fields).record? keys
  let others := fields.filter fun field => !keys.contains field.1
  if !areProperFields depthLimit others then none
  let entry ← Json.optional? known "entry" base.entry Json.Value.string?
  let dir ← Json.optional? known "dir" none (Json.Value.optional? Json.Value.string?)
  let maxDepth ← Json.optional? known "maxDepth" none (Json.Value.optional? Json.Value.nat?)
  let aliases ← Json.optional? known "alias" base.aliases decodeAlias?
  let ignored ← Json.optional? known "ignore" base.ignored (Json.Value.all? IgnoreEntry.decode?)
  let compile ← Json.optional? known "compile" base.compile Json.Value.bool?
  let unknownDir ← Json.optional? known "unknownDir" base.unknownDir Json.Value.string?
  let ignoredGlobals ← Json.optional? known "ignoredGlobalVars" base.ignoredGlobals
    (Json.Value.all? Json.Value.string?)
  let ignorePaths ← Json.optional? known "ignorePaths" base.ignorePaths
    (Json.Value.all? Json.Value.string?)
  let verbose ← Json.optional? known "verbose" base.verbose Json.Value.bool?
  let output ← Json.optional? known "output" none (Json.Value.optional? Json.Value.string?)
  let format ← Json.optional? known "format" base.format ReportFormat.decode?
  let rules ← Rules.decode? others
  return {
    entry, dir, maxDepth, aliases, ignored, compile, unknownDir, ignoredGlobals, ignorePaths,
    verbose, output, format, rules
  }

def decode? : Json.Value → Option Options
  | .object fields => decodeFields? fields
  | _ => none

/-- The options a text states. -/
def parse? (text : String) : Option Options := (Json.parse? text).bind decode?

end Options
end AssetAudit
