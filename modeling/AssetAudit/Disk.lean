import AssetAudit.Path

/-!
# Files on disk

A disk is a value: its files, directories and symbolic links under their names from the top, and the
directory relative paths start from. A path is followed segment by segment, and every segment but the
last has to lead to a directory, so `a/../b` needs `a`. Every directory on the way to a file exists.

A link stands for a path, seen from the directory the link is in. Following a path follows the links on
it too, up to `linkLimit` of them; walking a directory (`filesBelow`) passes links by, whether they lead
to a file or to a directory.
-/
namespace AssetAudit

inductive Node where
  /-- A file whose bytes are text. -/
  | text (content : String)
  /-- A file whose bytes are no text. -/
  | binary
  | directory
  /-- A symbolic link, with the path it stands for. -/
  | link (target : String)
  deriving DecidableEq, Repr

namespace Node

def isFile : Node → Bool
  | text _ | binary => true
  | directory | link _ => false

def isLink : Node → Bool
  | link _ => true
  | _ => false

end Node

structure Disk where
  /-- Names from the top to the working directory. -/
  here : List String
  nodes : List (List String × Node)
  deriving Repr, Inhabited

namespace Disk

/-- The names on an absolute path. -/
def namesOf (path : String) : List String :=
  (Path.components path).filterMap fun
    | .name text => some text
    | _ => none

/-- An empty disk with its working directory. -/
def atDirectory (path : String) : Disk := ⟨namesOf path, [(namesOf path, .directory)]⟩

/-- What stands under the given names. -/
def node? (disk : Disk) (names : List String) : Option Node :=
  match disk.nodes.lookup names with
  | some node => some node
  | none =>
    if names.isEmpty || disk.nodes.any (fun entry => names.isPrefixOf entry.1) then some .directory
    else none

def isDirectoryAt (disk : Disk) (names : List String) : Bool := disk.node? names == some .directory

def isFileAt (disk : Disk) (names : List String) : Bool := (disk.node? names).any Node.isFile

/-- The number of places on the disk, at most: the top, and every place on the way to a node. -/
def placeLimit (disk : Disk) : Nat :=
  disk.nodes.foldr (fun entry total => entry.1.length + 1 + total) 1

/-! ## Following paths -/

/-- The directory a path is followed from. -/
def origin (disk : Disk) (path : String) : List String :=
  if Path.isAbsolute path then [] else disk.here

/-- Follow the segments of a path from a place up to the first link. What is left from there on is
followed by `onLink`: the path the link stands for, then the segments behind the link. -/
def followTo (disk : Disk) (onLink : List String → List String → Option (List String)) :
    List String → List String → Option (List String)
  | names, [] => some names
  | names, segment :: rest =>
    if disk.isDirectoryAt names then
      match Path.component? segment with
      | none => followTo disk onLink names rest
      | some .parent => followTo disk onLink names.dropLast rest
      | some _ =>
        match disk.node? (names ++ [segment]) with
        | some (.link target) =>
          onLink (if Path.isAbsolute target then [] else names) (Path.segments target ++ rest)
        | _ => followTo disk onLink (names ++ [segment]) rest
    else none

/-- Follow the segments of a path from a place, and so many links on the way. -/
def follow? (disk : Disk) : Nat → List String → List String → Option (List String)
  | 0 => disk.followTo fun _ _ => none
  | links + 1 => disk.followTo (follow? disk links)

/-- The number of links that are followed for one path; with more it leads nowhere. -/
def linkLimit : Nat := 40

/-- The names a path leads to, whether or not something is there. -/
def locate? (disk : Disk) (path : String) : Option (List String) :=
  if path.isEmpty then none else disk.follow? linkLimit (disk.origin path) (Path.segments path)

/-- The number of lists of names that lead to places of the disk from one place, at most: from link to
link, and from the last one to the place. -/
def spellingLimit (disk : Disk) : Nat :=
  disk.placeLimit * Nat.pow (disk.nodes.countP (·.2.isLink) + 1) linkLimit

/-- What a path leads to, which is no link itself. -/
def find? (disk : Disk) (path : String) : Option Node :=
  ((disk.locate? path).bind disk.node?).filter (!·.isLink)

/-- Whether there is anything at a path. -/
def holds (disk : Disk) (path : String) : Bool := (disk.find? path).isSome

def isDirectory (disk : Disk) (path : String) : Bool := disk.find? path == some .directory

def isFile (disk : Disk) (path : String) : Bool :=
  match disk.find? path with
  | some .directory | none => false
  | some _ => true

/-- The text of a file, if it is there and is text. -/
def read? (disk : Disk) (path : String) : Option String :=
  match disk.find? path with
  | some (.text content) => some content
  | _ => none

/-! ## Walking a directory -/

/-- Order of lists of names: a directory before what it holds, names by their characters. -/
def namesBefore : List String → List String → Bool
  | [], _ => true
  | _ :: _, [] => false
  | a :: as, b :: bs => if a == b then namesBefore as bs else a < b

/-- Whether a walk from a place comes to a file by the given names. No link is a directory to the walk,
and none is a file. -/
def walksTo (disk : Disk) : List String → List String → Bool
  | names, [] => disk.isFileAt names
  | names, name :: rest => disk.isDirectoryAt names && walksTo disk (names ++ [name]) rest

/-- The files that a walk below a directory comes to as names from there, in their order, without those
that have a name in `skipped` on their way. -/
def filesBelow (disk : Disk) (skipped : List String) (names : List String) : List (List String) :=
  let files := disk.nodes.filterMap fun (path, _) =>
    match names.isPrefixOf? path with
    | some (name :: rest) =>
      if (name :: rest).any skipped.contains || !disk.walksTo names (name :: rest) then none
      else some (name :: rest)
    | _ => none
  files.mergeSort namesBefore

/-! ## Changes -/

/-- Put a node under the given names. -/
def put (disk : Disk) (names : List String) (node : Node) : Disk :=
  { disk with nodes := disk.nodes.filter (fun entry => entry.1 != names) ++ [(names, node)] }

/-- Take away what stands under the given names. -/
def remove (disk : Disk) (names : List String) : Disk :=
  { disk with nodes := disk.nodes.filter fun entry => entry.1 != names }

/-- Follow one segment of a path, and make the directory it names if there is none. A link that leads
nowhere is in the way of one. -/
def enter? (state : Disk × List String) (segment : String) : Option (Disk × List String) :=
  let (disk, names) := state
  match disk.follow? linkLimit names [segment] with
  | none => none
  | some found =>
    match disk.node? found, disk.node? (names ++ [segment]) with
    | some .directory, _ => some (disk, found)
    | none, none => some (disk.put found .directory, found)
    | _, _ => none

/-- Make a directory and those it stands in. -/
def makeDirectories? (disk : Disk) (path : String) : Option Disk :=
  ((Path.segments path).foldlM enter? (disk, disk.origin path)).map (·.1)

/-- Make or replace the text file at a path whose directory exists. -/
def writeAt? (disk : Disk) (path content : String) : Option Disk :=
  match (Path.segments path).getLast?, disk.locate? path with
  | some name, some names =>
    if ["", ".", ".."].contains name || disk.isDirectoryAt names then none
    else some (disk.put names (.text content))
  | _, _ => none

/-- Make or replace a text file and the directories it stands in. -/
def write? (disk : Disk) (path content : String) : Option Disk :=
  match Path.parent? path with
  | none | some "" => disk.writeAt? path content
  | some parent => (disk.makeDirectories? parent).bind (·.writeAt? path content)

end Disk
end AssetAudit
