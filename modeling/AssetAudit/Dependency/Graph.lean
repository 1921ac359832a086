import AssetAudit.Dependency.Reference
import AssetAudit.Dependency.Specifier
import AssetAudit.Script.Extract

/-!
# The dependency graph

Files are the nodes, and a file leads to the files it imports or loads, in the order in which its text
names them. `reachable` walks the graph breadth first from an entry. A file that is missing, ignored
or further away than the depth allows is passed over; one that cannot be read or parsed leads nowhere.
-/
namespace AssetAudit.Dependency

/-- The files a script imports (`js_dependencies`). -/
def ofScript (disk : Disk) (settings : Settings) (directory extension content : String) :
    List String :=
  let dialect := (Script.Dialect.ofExtension? extension).getD .javascript
  match Script.extract ⟨dialect, false, []⟩ content with
  | .ok facts => facts.specifiers.filterMap (resolve? disk settings directory)
  | .error _ => []

def scriptExtensions : List String :=
  [".js", ".jsx", ".ts", ".tsx", ".mjs", ".cjs", ".mts", ".cts"]

def styleExtensions : List String := [".css", ".scss", ".less"]

def pageExtensions : List String := [".html", ".htm"]

/-- The files a file leads to (`file_dependencies`). -/
def edges (disk : Disk) (settings : Settings) (file : String) : List String :=
  match disk.read? file with
  | none => []
  | some content =>
    let extension := Path.extension file
    let directory := Path.directory file
    if scriptExtensions.contains extension then
      ofScript disk settings directory extension content
    else if styleExtensions.contains extension then ofStyle disk directory content
    else if pageExtensions.contains extension then ofPage disk directory content
    else []

/-- Whether a file that was reached at a depth is part of the graph. -/
def admits (disk : Disk) (settings : Settings) (file : String) (depth : Nat) : Bool :=
  settings.maxDepth.all (depth ≤ ·) && disk.isFile file && !settings.ignoresPath file

/-- Whether a path was visited, in whatever spelling. -/
def isVisited (visited : List String) (file : String) : Bool :=
  visited.any fun other => Path.components other == Path.components file

/-- The first entry of the queue to visit, and the queue after it. -/
def next? (disk : Disk) (settings : Settings) (visited : List String) :
    List (String × Nat) → Option ((String × Nat) × List (String × Nat))
  | [] => none
  | (file, depth) :: queue =>
    if !isVisited visited file && admits disk settings file depth then some ((file, depth), queue)
    else next? disk settings visited queue

/-- Visit at most `steps` more files. -/
def visit (disk : Disk) (settings : Settings) :
    Nat → List String → List (String × Nat) → List String
  | 0, visited, _ => visited
  | steps + 1, visited, queue =>
    match next? disk settings visited queue with
    | none => visited
    | some ((file, depth), queue) =>
      let found := (edges disk settings file).map fun target => (target, depth + 1)
      visit disk settings steps (visited ++ [file]) (queue ++ found)

/-- No walk visits more files. A visited path is one in normal form and an ending. Up to the first slash
of the ending it follows names that lead to a place of the disk, in one of four forms (absolute or not,
from `..` on or not), and at most one segment more that is no name. -/
def visitLimit (disk : Disk) (settings : Settings) : Nat :=
  16 * (disk.spellingLimit * settings.endings.length)

/-- The files reachable from an entry, in the order of the walk (`resolve_dependencies`). -/
def reachable (disk : Disk) (settings : Settings) (entry : String) : List String :=
  visit disk settings (visitLimit disk settings) [] [(Path.normalize (Path.join settings.base entry), 0)]

end AssetAudit.Dependency
