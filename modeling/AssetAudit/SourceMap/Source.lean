import AssetAudit.Json.Reader
import AssetAudit.Text.Search

/-!
# Names of sources

A bundler writes sources under a namespace of its own; rules and reports speak of them without it.
-/
namespace AssetAudit.SourceMap

/-- The source of an issue whose place in the sources is not known. -/
def unknownSource : String := "unknown"

def isKnown (source : String) : Bool := !source.isEmpty && source != unknownSource

/-- The text after the namespace of a bundler, if it has one. -/
def afterNamespace? (source : List Char) : Option (List Char) :=
  match Text.after? "webpack://".toList source with
  | none => none
  | some rest =>
    match rest.dropWhile (· != '/') with
    | [] => none
    | _ :: rest => some rest

/-- A source without namespace and without a dot for the current directory (`normalize_source`). -/
def normalizeSource (source : String) : String :=
  let stripped := (afterNamespace? source.toList).getD source.toList
  String.ofList ((Text.after? "./".toList stripped).getD stripped)

/-- The sources the text of a map lists. -/
def listed? (text : String) : Option (List String) := do
  let value ← Json.parse? text
  let fields ← value.record? ["sources"]
  let sources ← Json.optional? fields "sources" []
    (Json.Value.all? (Json.Value.optional? Json.Value.string?))
  return sources.filterMap id

/-- The normalized sources of a map, none if there is no map or it cannot be read (`map_sources`). -/
def sourcesOf (map : Option String) : List String :=
  ((map.bind listed?).getD []).map normalizeSource

end AssetAudit.SourceMap
