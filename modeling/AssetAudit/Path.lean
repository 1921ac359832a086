import AssetAudit.Text.Lowercase
import AssetAudit.Text.Search

/-!
# Paths

A path is a text. Its components are what the slashes divide: doubled slashes and dots say nothing,
except for a dot that starts a relative path. Two paths name the same place if their components
agree. `normalize` also resolves `..` by dropping the component before it.
-/
namespace AssetAudit.Path

inductive Component where
  | root
  | current
  | parent
  | name (text : String)
  deriving DecidableEq, Repr

/-- The texts between slashes. -/
def segments (path : String) : List String :=
  (Text.splitAt '/' path.toList).map String.ofList

def isAbsolute (path : String) : Bool := path.toList.head? == some '/'

def component? : String → Option Component
  | "" | "." => none
  | ".." => some .parent
  | text => some (.name text)

def components (path : String) : List Component :=
  match segments path with
  | [] => []
  | first :: rest =>
    let start :=
      if isAbsolute path then [Component.root]
      else if first == "." then [.current]
      else (component? first).toList
    start ++ rest.filterMap component?

def Component.text : Component → String
  | .root => ""
  | .current => "."
  | .parent => ".."
  | .name text => text

/-- The path with the given components. -/
def render : List Component → String
  | [.root] => "/"
  | components => "/".intercalate (components.map Component.text)

/-! ## Normal form -/

/-- Resolve one component after those kept so far, the last one first. A `..` takes away whatever was
kept last; where nothing but the root is left it is kept itself. -/
def resolveStep (kept : List Component) : Component → List Component
  | .current => kept
  | .parent =>
    match kept with
    | [] => [.parent]
    | .root :: rest => .parent :: .root :: rest
    | _ :: rest => rest
  | component => component :: kept

def resolve (components : List Component) : List Component :=
  (components.foldl resolveStep []).reverse

/-- The path without `.` and `..`, as far as that can be told from its text (`lexical_normalize`). -/
def normalize (path : String) : String := render (resolve (components path))

/-! ## Parts of paths -/

/-- `path` as seen from the directory `base`. -/
def join (base path : String) : String :=
  if isAbsolute path || base.isEmpty then path
  else if base.toList.getLast? == some '/' then base ++ path
  else base ++ "/" ++ path

/-- Drop what says nothing at the end of a path, segments last one first. -/
def trimSegments : List String → List String
  | [] => []
  | [first] => [first]
  | segment :: rest => if segment == "" || segment == "." then trimSegments rest else segment :: rest

/-- The path without its last component. -/
def parent? (path : String) : Option String :=
  match (components path).getLast? with
  | none | some .root => none
  | some _ =>
    let rest := trimSegments (trimSegments (segments path).reverse).tail
    let text := "/".intercalate rest.reverse
    if isAbsolute path && text.isEmpty then some "/" else some text

/-- The directory a file stands in (`parent_dir`). -/
def directory (path : String) : String := (parent? path).getD "."

def fileName? (path : String) : Option String :=
  match (components path).getLast? with
  | some (.name text) => some text
  | _ => none

/-- What follows the last dot of the file name, unless the name starts with it. -/
def extension? (path : String) : Option String :=
  match fileName? path with
  | none => none
  | some name =>
    match Text.splitLast? '.' name.toList with
    | some (stem, extension) => if stem.isEmpty then none else some (String.ofList extension)
    | none => none

/-- The extension in lower case and with its dot; empty if there is none (`extension_of`). -/
def extension (path : String) : String :=
  match extension? path with
  | some text => "." ++ Text.lowercase text
  | none => ""

/-- An extension in lower case and without dots before it. -/
def bareExtension (extension : String) : String :=
  Text.lowercase (String.ofList (extension.toList.dropWhile (· == '.')))

/-- The components after those of `base`. -/
def stripBase? (base path : String) : Option (List Component) :=
  (components base).isPrefixOf? (components path)

/-- The path from `base`, or the path itself if it is elsewhere. -/
def relative (base path : String) : String :=
  match stripBase? base path with
  | some rest => render rest
  | none => path

/-- The path with forward slashes and without the mark of a verbatim path (`normalize_path`). -/
def forward (path : String) : String :=
  let text := path.toList
  let text := (Text.after? "\\\\?\\".toList text).getD text
  String.ofList (text.map fun c => if c == '\\' then '/' else c)

end AssetAudit.Path
