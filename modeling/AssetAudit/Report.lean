import AssetAudit.Issue
import AssetAudit.Text.Sha256

/-!
# Reports

The issues of a scan in four lists, and a report on them: counts over the lists, and the issues grouped
by where their source lives and the file they are filed under. In the groups an issue that says the
same of the same file is kept once, and one without a source is left out.
-/
namespace AssetAudit

/-! ## Results -/

/-- The lists of a report, in their order. -/
inductive Category where
  | styles
  | globals
  | listeners
  | elements
  deriving DecidableEq, Repr

namespace Category

def all : List Category := [styles, globals, listeners, elements]

def title : Category → String
  | styles => "CSS"
  | globals => "Global variables"
  | listeners => "Event listeners"
  | elements => "Dynamic elements"

end Category

/-- The issues of a scan, by the analysis that found them. -/
structure Results where
  styles : List Issue := []
  globals : List Issue := []
  listeners : List Issue := []
  elements : List Issue := []
  deriving DecidableEq, Repr

namespace Results

def get (results : Results) : Category → List Issue
  | .styles => results.styles
  | .globals => results.globals
  | .listeners => results.listeners
  | .elements => results.elements

/-- All issues in the order of the lists, each with its list. -/
def entries (results : Results) : List (Category × Issue) :=
  Category.all.flatMap fun category => (results.get category).map (category, ·)

/-- One more issue at the end of a list. -/
def add (results : Results) (category : Category) (issue : Issue) : Results :=
  match category with
  | .styles => { results with styles := results.styles ++ [issue] }
  | .globals => { results with globals := results.globals ++ [issue] }
  | .listeners => { results with listeners := results.listeners ++ [issue] }
  | .elements => { results with elements := results.elements ++ [issue] }

def total (results : Results) : Nat :=
  results.styles.length + results.globals.length + results.listeners.length +
    results.elements.length

def isEmpty (results : Results) : Bool := results.total == 0

/-- The number of issues of a severity (`count_severity`). -/
def countOf (results : Results) (severity : Severity) : Nat :=
  results.entries.countP (·.2.severity == severity)

end Results

/-! ## Groups -/

inductive SourceGroup where
  | source
  | nodeModules
  | unknown
  deriving DecidableEq, Repr

namespace SourceGroup

def all : List SourceGroup := [source, nodeModules, unknown]

def name : SourceGroup → String
  | source => "source"
  | nodeModules => "node_modules"
  | unknown => "unknown"

def title : SourceGroup → String
  | source => "Source"
  | nodeModules => "node_modules"
  | unknown => "Unknown source"

/-- The first name on a path. -/
def firstName? (components : List Path.Component) : Option String :=
  components.findSome? fun
    | .name text => some text
    | _ => none

/-- The group of a source: unknown if it is not known or lies in the given directory of the root
(`classify_source`). -/
def classify (root unknownDir source : String) : SourceGroup :=
  if source == SourceMap.unknownSource then .unknown
  else if Text.contains "node_modules".toList source.toList then .nodeModules
  else
    let components := (Path.stripBase? root source).getD (Path.components source)
    if !unknownDir.isEmpty && firstName? components == some unknownDir then .unknown
    else .source

end SourceGroup

/-- The results of each file, in the order of the files' names. -/
abbrev FileResults := List (String × Results)

/-- Change the results of a file, which are empty if there are none yet. -/
def updateFile (file : String) (change : Results → Results) : FileResults → FileResults
  | [] => [(file, change {})]
  | (other, results) :: rest =>
    if file == other then (file, change results) :: rest
    else if file < other then (file, change {}) :: (other, results) :: rest
    else (other, results) :: updateFile file change rest

structure Groups where
  source : FileResults := []
  nodeModules : FileResults := []
  unknown : FileResults := []
  deriving DecidableEq, Repr

namespace Groups

def get (groups : Groups) : SourceGroup → FileResults
  | .source => groups.source
  | .nodeModules => groups.nodeModules
  | .unknown => groups.unknown

def update (groups : Groups) (group : SourceGroup) (change : FileResults → FileResults) : Groups :=
  match group with
  | .source => { groups with source := change groups.source }
  | .nodeModules => { groups with nodeModules := change groups.nodeModules }
  | .unknown => { groups with unknown := change groups.unknown }

end Groups

/-- By which an issue is known to be in the groups already. -/
def Issue.digest (issue : Issue) : String := Text.sha256 issue.key

/-- Groups while issues are put into them, with the digests of those that are in. -/
structure Grouping where
  seen : List String := []
  groups : Groups := {}

/-- Put an issue into its group, unless it has no source or one with its digest is in already. -/
def Grouping.add (root unknownDir : String) (grouping : Grouping) (entry : Category × Issue) :
    Grouping :=
  let (category, issue) := entry
  match issue.source with
  | none => grouping
  | some source =>
    if grouping.seen.contains issue.digest then grouping
    else
      ⟨issue.digest :: grouping.seen,
        grouping.groups.update (SourceGroup.classify root unknownDir source)
          (updateFile issue.file (·.add category issue))⟩

/-- The groups of the issues of a scan (`group_issues`). -/
def Groups.ofResults (root unknownDir : String) (results : Results) : Groups :=
  (results.entries.foldl (Grouping.add root unknownDir) {}).groups

/-! ## Reports -/

/-- The number of issues in each list and in all. -/
structure IssueCounts where
  styles : Nat
  globals : Nat
  listeners : Nat
  elements : Nat
  total : Nat
  deriving DecidableEq, Repr

def Results.counts (results : Results) : IssueCounts :=
  ⟨results.styles.length, results.globals.length, results.listeners.length,
    results.elements.length, results.total⟩

structure Summary where
  entry : String
  directory : String
  totalFiles : Nat
  scannedAt : String
  issues : IssueCounts
  deriving DecidableEq, Repr

structure Report where
  summary : Summary
  results : Results
  groups : Groups
  deriving DecidableEq, Repr

namespace Report

/-- The figures at the head of a report (`summarize`). -/
def summarize (options : Options) (totalFiles : Nat) (scannedAt : String) (results : Results) :
    Summary where
  entry := options.scanRoot
  directory := options.dir.getD ((Path.parent? options.entry).getD "")
  totalFiles := totalFiles
  scannedAt := scannedAt
  issues := results.counts

/-- The report on results (`aggregate`). -/
def ofResults (options : Options) (root : String) (totalFiles : Nat) (scannedAt : String)
    (results : Results) : Report :=
  ⟨summarize options totalFiles scannedAt results, results,
    .ofResults root options.unknownDir results⟩

end Report
end AssetAudit
