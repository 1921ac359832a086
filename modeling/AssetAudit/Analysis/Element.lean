import AssetAudit.Issue

/-!
# Elements made at run time

Elements that are created and never removed, and every operation on the document whose rule is on.
-/
namespace AssetAudit.Analysis.Element

open AssetAudit.Script

/-- The parent of an operation that names none. -/
def unknownParent : String := "unknown"

/-- An issue about an operation, at its place, unless that place is ignored. -/
def issueFor? (audit : Audit) (file : SurveyedFile) (operation : ElementOperation)
    (kind : IssueKind) (message : String) : Option Issue :=
  (audit.reported? file operation.location).map fun origin =>
    ((({ kind, severity := .warning, message, file := file.path } : Issue).located
      origin).withFallbackCode operation.code).inPage Issue.inlineScriptLabel file.isPage

/-- An element that was created and that no operation removes (`untracked`). -/
def untracked? (audit : Audit) (file : SurveyedFile) (facts : Facts)
    (created : ElementOperation) : Option Issue :=
  if audit.options.rules.untrackedDynamicElement &&
      !facts.detached.any (·.element == created.element) then
    issueFor? audit file created (.untrackedDynamicElement created.element created.method.name)
      ("Dynamically created element " ++ created.element ++ " is never removed")
  else none

/-- The issue of an operation that moves an element (`operation`). -/
def operation? (audit : Audit) (file : SurveyedFile) (operation : ElementOperation) :
    Option Issue :=
  let element := operation.element
  let parent := operation.parent.getD unknownParent
  let name := operation.method.name
  match operation.method with
  | .appendChild =>
    issueFor? audit file operation (.dynamicElementAppend element parent name)
      (element ++ " is appended to " ++ parent ++ " at runtime")
  | .insertBefore =>
    issueFor? audit file operation
      (.dynamicElementInsert element parent operation.reference name)
      (element ++ " is inserted into " ++ parent ++ " at runtime")
  | _ =>
    issueFor? audit file operation (.dynamicElementRemove element parent name)
      (element ++ " is removed from " ++ parent ++ " at runtime")

def operations (audit : Audit) (file : SurveyedFile) (on : Bool)
    (operations : List ElementOperation) : List Issue :=
  if on then operations.filterMap (operation? audit file) else []

/-- The issues of a file (`analyze_file`). -/
def fileIssues (audit : Audit) (file : SurveyedFile) : List Issue :=
  match file.script? with
  | none => []
  | some facts =>
    let rules := audit.options.rules
    facts.created.filterMap (untracked? audit file facts) ++
      operations audit file rules.dynamicElementAppend facts.appended ++
      operations audit file rules.dynamicElementInsert facts.inserted ++
      operations audit file rules.dynamicElementRemove facts.detached

/-- The issues of all scripts and pages (`analyze`). -/
def issues (audit : Audit) : List Issue := audit.scriptsAndPages.flatMap (fileIssues audit)

end AssetAudit.Analysis.Element
