import AssetAudit.Json.Value
import AssetAudit.Path
import AssetAudit.Text.Blank

/-!
# Assets

An asset is one scanned input: a bundled chunk, a source file or a page, with the text of its source
map if it has one. Assets come in three lists by kind.
-/
namespace AssetAudit

inductive FileKind where
  | script
  | style
  | page
  deriving DecidableEq, Repr

namespace FileKind

def name : FileKind → String
  | script => "js"
  | style => "css"
  | page => "html"

/-- The kind of a file with an extension, with or without its dot (`from_extension`). What is neither a
style sheet nor a page counts as a script. -/
def ofExtension (extension : String) : FileKind :=
  let bare := Path.bareExtension extension
  if ["css", "scss", "less"].contains bare then .style
  else if ["html", "htm"].contains bare then .page
  else .script

end FileKind

structure Asset where
  name : String
  content : String
  map : Option String
  deriving DecidableEq, Repr, Inhabited

namespace Asset

/-- The text of the source map, unless it is blank (`source_map`). -/
def sourceMap? (asset : Asset) : Option String :=
  asset.map.filter fun text => !Text.isBlankText text

/-- Whether a name is that of a page (`is_html`). -/
def isPageName (name : String) : Bool :=
  let lower := (Text.lowercase name).toList
  Text.endsWith ".html".toList lower || Text.endsWith ".htm".toList lower

def isPage (asset : Asset) : Bool := isPageName asset.name

def extension (asset : Asset) : String := Path.extension asset.name

def decode? (v : Json.Value) : Option Asset := do
  let fields ← v.record? ["name", "content", "map"]
  let name ← Json.required? fields "name" Json.Value.string?
  let content ← Json.required? fields "content" Json.Value.string?
  let map ← Json.optional? fields "map" none (Json.Value.optional? Json.Value.string?)
  return ⟨name, content, map⟩

end Asset

structure AssetMap where
  scripts : List Asset
  styles : List Asset
  pages : List Asset
  deriving DecidableEq, Repr, Inhabited

namespace AssetMap

def empty : AssetMap := ⟨[], [], []⟩

def size (assets : AssetMap) : Nat :=
  assets.scripts.length + assets.styles.length + assets.pages.length

def isEmpty (assets : AssetMap) : Bool := assets.size == 0

/-- Each asset in the list of its kind, in the given order (`push`). -/
def ofList (assets : List Asset) : AssetMap :=
  let kind (asset : Asset) : FileKind := FileKind.ofExtension asset.extension
  ⟨assets.filter (kind · == .script), assets.filter (kind · == .style),
    assets.filter (kind · == .page)⟩

def decode? (v : Json.Value) : Option AssetMap := do
  let fields ← v.record? ["js", "css", "html"]
  let scripts ← Json.optional? fields "js" [] (Json.Value.all? Asset.decode?)
  let styles ← Json.optional? fields "css" [] (Json.Value.all? Asset.decode?)
  let pages ← Json.optional? fields "html" [] (Json.Value.all? Asset.decode?)
  return ⟨scripts, styles, pages⟩

end AssetMap
end AssetAudit
