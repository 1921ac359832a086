import AssetAudit.Report

/-!
# Reports on the console

A report as lines of text, with or without the control sequences of terminal styles.
-/
namespace AssetAudit.Console

/-- The codes of terminal styles. -/
inductive Style where
  | bold
  | dimmed
  | underline
  | red
  | green
  | yellow
  | cyan
  deriving DecidableEq, Repr

def Style.code : Style → String
  | bold => "1"
  | dimmed => "2"
  | underline => "4"
  | red => "31"
  | green => "32"
  | yellow => "33"
  | cyan => "36"

def resetSequence : String := "\x1b[0m"

/-- A text in which every reset is followed by `style`, so that a reset inside does not end it. The first
characters are `passed` over. -/
def renew (style : List Char) : Nat → List Char → List Char
  | _, [] => []
  | passed + 1, c :: rest =>
    if passed == 0 then c :: (style ++ renew style 0 rest) else c :: renew style passed rest
  | 0, c :: rest =>
    if Text.startsWith resetSequence.toList (c :: rest) then
      c :: renew style (resetSequence.length - 1) rest
    else c :: renew style 0 rest

/-- A text in terminal styles, if there are colours. -/
def paint (colours : Bool) (styles : List Style) (text : String) : String :=
  if colours then
    let start := "\x1b[" ++ ";".intercalate (styles.map Style.code) ++ "m"
    start ++ String.ofList (renew start.toList 0 text.toList) ++ resetSequence
  else text

/-- The mark of a severity (`severity_label`). -/
def severityLabel (colours : Bool) : Severity → String
  | .error => paint colours [.bold, .red] "ERROR"
  | .warning => paint colours [.yellow] "WARNING"
  | .info => paint colours [.cyan] "INFO"

/-- Where an issue is, in its source if that is known (`issue_location`). -/
def placeOf (issue : Issue) : String :=
  let origin := issue.source.getD issue.file
  match issue.position with
  | some place => origin ++ ":" ++ toString place.start.line ++ ":" ++ toString place.start.column
  | none => origin

/-- Width of a line, and of what stands before code on it. -/
def lineWidth : Nat := 120

def codeIndent : Nat := 6

def issueLines (colours : Bool) (issue : Issue) : List String :=
  ["    " ++ severityLabel colours issue.severity ++ " [" ++
      paint colours [.dimmed] issue.typeName ++ "]: " ++ issue.message,
    "      " ++ placeOf issue] ++
    match issue.code with
    | some code =>
      ["      " ++ paint colours [.dimmed] (Text.truncate code (lineWidth - codeIndent))]
    | none => []

def categoryLines (colours : Bool) (results : Results) (category : Category) : List String :=
  let issues := results.get category
  if issues.isEmpty then []
  else ("  " ++ paint colours [.dimmed] category.title) :: issues.flatMap (issueLines colours)

/-- The lines of a file (`push_results`). -/
def fileLines (colours : Bool) (file : String) (results : Results) : List String :=
  ("📄 " ++ paint colours [.bold, .cyan] file) ::
    Category.all.flatMap (categoryLines colours results)

def groupLines (colours : Bool) (group : SourceGroup) (files : FileResults) : List String :=
  if files.isEmpty then []
  else
    [paint colours [.bold] group.title ++ " (" ++ toString files.length ++ " files)"] ++
      (files.flatMap fun (file, results) => fileLines colours file results) ++ [""]

def headLines (colours : Bool) (summary : Summary) : List String :=
  ["", paint colours [.bold, .underline] "Side Effect Scan Report",
    "  Entry:     " ++ paint colours [.cyan] summary.entry,
    "  Directory: " ++ summary.directory,
    "  Files:     " ++ toString summary.totalFiles,
    "  Scanned:   " ++ paint colours [.dimmed] summary.scannedAt, ""]

def totalLines (colours : Bool) (counts : IssueCounts) (results : Results) : List String :=
  let count (severity : Severity) : String := toString (results.countOf severity)
  ["Found " ++ paint colours [.bold] (toString counts.total) ++ " issues (" ++
      toString counts.styles ++ " css, " ++ toString counts.globals ++ " global variables, " ++
      toString counts.listeners ++ " event listeners, " ++ toString counts.elements ++
      " dynamic elements)",
    "  " ++ paint colours [.red] (count .error) ++ " errors, " ++
      paint colours [.yellow] (count .warning) ++ " warnings, " ++ count .info ++ " info"]

/-- The lines of a report (`console_lines`). -/
def lines (colours : Bool) (report : Report) : List String :=
  headLines colours report.summary ++
    if report.summary.issues.total == 0 then [paint colours [.bold, .green] "✓ No side effects found"]
    else
      (SourceGroup.all.flatMap fun group => groupLines colours group (report.groups.get group)) ++
        totalLines colours report.summary.issues report.results

end AssetAudit.Console
