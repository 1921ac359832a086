import AssetAudit.Issue

/-!
# Global variables

Writes to the global object, and writes that replace what the browser provides.
-/
namespace AssetAudit.Analysis.Global

open AssetAudit.Script

/-- What the browser provides (`BUILT_IN_GLOBALS`). -/
def builtIns : List String :=
  ["window", "document", "navigator", "location", "history", "localStorage", "sessionStorage",
    "console", "screen", "performance", "fetch", "XMLHttpRequest"]

/-- An issue about a global, at the place it is written, unless that place is ignored. -/
def issueFor? (audit : Audit) (file : SurveyedFile) (global : GlobalVariable) (kind : IssueKind)
    (severity : Severity) (message : String) : Option Issue :=
  (audit.reported? file global.location).map fun origin =>
    ((({ kind, severity, message, file := file.path } : Issue).located origin).withFallbackCode
      global.code).inPage Issue.inlineScriptLabel file.isPage

/-- A declaration (`declaration`). Bundlers write every binding with `var`, so in a script file such a one
does not count. -/
def declaration? (audit : Audit) (file : SurveyedFile) (global : GlobalVariable) : Option Issue :=
  if audit.options.rules.globalVarDeclaration && !(file.isScript && global.kind == .var) then
    issueFor? audit file global (.globalVarDeclaration global.name global.kind.name) .warning
      ("Global variable " ++ global.name ++ " is declared on the shared global object")
  else none

/-- A global that replaces what the browser provides (`built_in_override`). -/
def override? (audit : Audit) (file : SurveyedFile) (global : GlobalVariable) : Option Issue :=
  if audit.options.rules.builtInOverride && global.kind != .var && builtIns.contains global.name then
    issueFor? audit file global (.builtInOverride global.name) .error
      ("Built-in global " ++ global.name ++ " is overridden")
  else none

/-- The issues of a file (`analyze_file`). -/
def fileIssues (audit : Audit) (file : SurveyedFile) : List Issue :=
  match file.script? with
  | none => []
  | some facts =>
    facts.globals.filterMap (declaration? audit file) ++
      facts.globals.filterMap (override? audit file)

/-- The issues of all scripts and pages (`analyze`). -/
def issues (audit : Audit) : List Issue := audit.scriptsAndPages.flatMap (fileIssues audit)

end AssetAudit.Analysis.Global
