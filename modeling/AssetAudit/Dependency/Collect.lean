import AssetAudit.Asset
import AssetAudit.Dependency.Graph
import AssetAudit.License
import AssetAudit.SourceMap.Reference

/-!
# Collecting assets

The assets of a scan: every file of a directory that can be scanned, or the files reachable from an
entry file. Files that cannot be read are left out.
-/
namespace AssetAudit.Dependency

/-- The source map of a file: the one beside it, or else the one its text refers to
(`load_source_map`). -/
def sourceMapOf? (disk : Disk) (path content : String) : Option String :=
  match disk.read? (path ++ ".map") with
  | some map => some map
  | none =>
    match SourceMap.reference? content with
    | some (.inline map) => some map
    | some (.external url) =>
      if isRemote url.toList then none else disk.read? (Path.join (Path.directory path) url)
    | none => none

/-- The asset of a file, with what `clean` makes of its text (`load_asset`). -/
def load? (disk : Disk) (clean : String → String) (path : String) : Option Asset :=
  (disk.read? path).map fun raw =>
    let content := clean raw
    ⟨Path.forward path, content, sourceMapOf? disk path content⟩

/-- Extensions of the files collected from a directory (`DIRECTORY_EXTENSIONS`). -/
def directoryExtensions : List String :=
  [".js", ".jsx", ".ts", ".tsx", ".css", ".scss", ".less", ".html", ".htm"]

/-- The directory no walk goes into. -/
def skippedNames : List String := [".git"]

/-- The paths of the files below a directory that can be scanned (`collect_directory_files`). -/
def directoryFiles (disk : Disk) (directory : String) : List String :=
  if (Path.fileName? directory).any skippedNames.contains then []
  else
    let names := (disk.locate? directory).getD []
    let paths := (disk.filesBelow skippedNames names).map fun names =>
      Path.join directory ("/".intercalate names)
    paths.filter fun path => directoryExtensions.contains (Path.extension path)

/-- The assets a target stands for (`resolve_asset_map`). In a directory license comments are made
blank. -/
def collect (disk : Disk) (settings : Settings) (target : String) : Except ScanError AssetMap :=
  let target := Path.normalize (Path.join settings.base target)
  match disk.find? target with
  | none => .error (.entryNotFound target)
  | some .directory =>
    .ok (.ofList ((directoryFiles disk target).filterMap (load? disk License.clean)))
  | some _ => .ok (.ofList ((reachable disk settings target).filterMap (load? disk id)))

end AssetAudit.Dependency
