import AssetAudit.Dependency.Graph
import AssetAudit.Survey

/-!
# Definitions of handlers

Where the handler of a listener is declared: in the source file that names it, or in a file that one
imports at most two steps away. Files are parsed and their imports followed once, and answers are
remembered; what is remembered under a path holds for every spelling of it.
-/
namespace AssetAudit.Analysis

/-- A path as a key. -/
abbrev PathKey := List Path.Component

structure Memory where
  dependencies : List (PathKey × List String) := []
  parsed : List (PathKey × Option Script.Facts) := []
  definitions : List ((PathKey × String) × Option String) := []

/-- The table with a new value for a key. -/
def remember {κ ν : Type} [BEq κ] (key : κ) (value : ν) (table : List (κ × ν)) : List (κ × ν) :=
  (key, value) :: table.filter fun entry => !(entry.1 == key)

namespace Memory

/-- The scripts of a survey, each under its path from the root (`seeded`). -/
def ofFiles (root : String) (files : List SurveyedFile) : Memory :=
  { parsed := files.foldl (fun table file =>
      match file.ownScript? with
      | some facts =>
        remember (Path.components (Path.normalize (Path.join root file.path))) (some facts) table
      | none => table) [] }

/-- Imports are followed this many steps (`DEFINITION_SEARCH_DEPTH`). -/
def searchDepth : Nat := 2

def searchSettings (root : String) : Dependency.Settings :=
  { base := root, maxDepth := some searchDepth, extensions := [".js", ".jsx", ".ts", ".tsx"] }

/-- What is remembered of the imports of a file. -/
def imports? (file : String) (memory : Memory) : Option (List String) :=
  memory.dependencies.lookup (Path.components file)

def insertImports (file : String) (files : List String) (memory : Memory) : Memory :=
  { memory with dependencies := remember (Path.components file) files memory.dependencies }

/-- The files a file imports, and the file itself (`dependencies_of`). -/
def dependenciesOf (disk : Disk) (root file : String) (memory : Memory) : List String × Memory :=
  match memory.imports? file with
  | some files => (files, memory)
  | none =>
    let files := Dependency.reachable disk (searchSettings root) file
    (files, memory.insertImports file files)

/-- The facts of a script on disk, if it can be read and parsed. -/
def factsOnDisk? (disk : Disk) (ignoredGlobals : List String) (file : String) :
    Option Script.Facts := do
  let dialect ← Script.Dialect.ofExtension? (Path.extension file)
  let content ← disk.read? file
  (Script.extract ⟨dialect, false, ignoredGlobals⟩ content).toOption

/-- What is remembered of the facts of a file. -/
def parsed? (file : String) (memory : Memory) : Option (Option Script.Facts) :=
  memory.parsed.lookup (Path.components file)

def insertParsed (file : String) (facts : Option Script.Facts) (memory : Memory) : Memory :=
  { memory with parsed := remember (Path.components file) facts memory.parsed }

/-- The facts of a file, from the survey or else from disk (`parse`). -/
def facts? (disk : Disk) (ignoredGlobals : List String) (file : String) (memory : Memory) :
    Option Script.Facts × Memory :=
  match memory.parsed? file with
  | some facts => (facts, memory)
  | none =>
    let facts := factsOnDisk? disk ignoredGlobals file
    (facts, memory.insertParsed file facts)

/-- What is remembered of a handler named in a file (`definition`). -/
def definition? (file handler : String) (memory : Memory) : Option (Option String) :=
  memory.definitions.lookup (Path.components file, handler)

def insertDefinition (file handler : String) (key : Option String) (memory : Memory) : Memory :=
  { memory with
    definitions := remember (Path.components file, handler) key memory.definitions }

end Memory

/-- The place of a declaration as one text (`definition_key`). -/
def definitionKey (root file : String) (place : Location) : String :=
  Path.forward (Path.relative root file) ++ ":" ++ toString place.start.line ++ ":" ++
    toString place.start.column

/-- The files among which definitions are looked for. -/
structure Project where
  disk : Disk
  root : String
  ignoredGlobals : List String

/-- The key of the first declaration of a handler in a list of files. -/
def findIn (project : Project) (handler : String) :
    List String → Memory → Option String × Memory
  | [], memory => (none, memory)
  | file :: files, memory =>
    let (facts, memory) := memory.facts? project.disk project.ignoredGlobals file
    match facts.bind (·.definition? handler) with
    | some place => (some (definitionKey project.root file place), memory)
    | none => findIn project handler files memory

/-- The key of the declaration of a handler named in a source file (`find_definition`). -/
def findDefinition (project : Project) (file handler : String) (memory : Memory) :
    Option String × Memory :=
  match findIn project handler [file] memory with
  | (some key, memory) => (some key, memory)
  | (none, memory) =>
    let (files, memory) := memory.dependenciesOf project.disk project.root file
    let others := files.filter fun other => Path.components other != Path.components file
    findIn project handler others memory

end AssetAudit.Analysis
