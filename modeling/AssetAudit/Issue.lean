import AssetAudit.SourceMap.Locate
import AssetAudit.Survey

/-!
# Issues

An issue is one side effect that was found: what it is, how severe it is, a message, and where it is.
It is filed under the source it comes from if that is known, and else under its asset.
-/
namespace AssetAudit

inductive Severity where
  | error
  | warning
  | info
  deriving DecidableEq, Repr

namespace Severity

def all : List Severity := [error, warning, info]

def name : Severity → String
  | error => "error"
  | warning => "warning"
  | info => "info"

end Severity

inductive IssueKind where
  | globalSelector (selector : String)
  | criticalGlobalStyle (selector : String) (declarations : List String)
  | complexSelector (selector : String) (complexity : Nat)
  | importantDeclaration (selector property : String)
  | globalImportantDeclaration (selector property value : String)
  | duplicateRule (selector : String)
  | globalStyleSideEffect (selector property value : String)
  | globalVarDeclaration (name kind : String)
  | builtInOverride (name : String)
  | unremovedEventListener (event element : String)
  | anonymousEventHandler (event element : String)
  | inlineEventHandler (event element : String)
  | untrackedDynamicElement (element method : String)
  | dynamicElementAppend (element parent operation : String)
  | dynamicElementInsert (element parent : String) (reference : Option String) (operation : String)
  | dynamicElementRemove (element parent operation : String)
  deriving DecidableEq, Repr

namespace IssueKind

def typeName : IssueKind → String
  | globalSelector .. => "global_selector"
  | criticalGlobalStyle .. => "critical_global_style"
  | complexSelector .. => "complex_selector"
  | importantDeclaration .. => "important_declaration"
  | globalImportantDeclaration .. => "global_important_declaration"
  | duplicateRule .. => "duplicate_rule"
  | globalStyleSideEffect .. => "global_style_side_effect"
  | globalVarDeclaration .. => "global_var_declaration"
  | builtInOverride .. => "built_in_override"
  | unremovedEventListener .. => "unremoved_event_listener"
  | anonymousEventHandler .. => "anonymous_event_handler"
  | inlineEventHandler .. => "inline_event_handler"
  | untrackedDynamicElement .. => "untracked_dynamic_element"
  | dynamicElementAppend .. => "dynamic_element_append"
  | dynamicElementInsert .. => "dynamic_element_insert"
  | dynamicElementRemove .. => "dynamic_element_remove"

/-- What the issue is about, in short (`detail`). -/
def detail : IssueKind → String
  | globalSelector selector | criticalGlobalStyle selector _ | complexSelector selector _
  | duplicateRule selector => selector
  | importantDeclaration selector property | globalImportantDeclaration selector property _
  | globalStyleSideEffect selector property _ => selector ++ " " ++ property
  | globalVarDeclaration name _ | builtInOverride name => name
  | unremovedEventListener event element | anonymousEventHandler event element
  | inlineEventHandler event element => event ++ " on " ++ element
  | untrackedDynamicElement element method => element ++ " (" ++ method ++ ")"
  | dynamicElementAppend element parent _ | dynamicElementInsert element parent _ _
  | dynamicElementRemove element parent _ => element ++ " in " ++ parent

end IssueKind

structure Issue where
  kind : IssueKind
  severity : Severity
  message : String
  file : String
  position : Option Location := none
  code : Option String := none
  source : Option String := none
  deriving DecidableEq, Repr

namespace Issue

def typeName (issue : Issue) : String := issue.kind.typeName

/-- The issue at the place where it comes from (`located`). -/
def located (issue : Issue) (origin : SourceMap.Origin) : Issue :=
  { issue with
    file := if origin.isKnown then origin.source else issue.file
    position := origin.location
    source := some origin.source
    code := origin.code <|> issue.code }

/-- The issue with the code of the asset, if it has none from the source (`with_fallback_code`). -/
def withFallbackCode (issue : Issue) (code : String) : Issue :=
  if code.isEmpty then issue else { issue with code := issue.code <|> some code }

/-- An issue of a part of a page points at the page as a whole: places inside the part count from the part
(`for_html`). -/
def inPage (label : String) (isPage : Bool) (issue : Issue) : Issue :=
  if isPage then { issue with message := label ++ issue.message, file := "html", position := none }
  else issue

def inlineScriptLabel : String := "Inline script in HTML "

def inlineStyleLabel : String := "Inline style in HTML "

/-- What makes two issues the same to a reader. -/
def key (issue : Issue) : String := issue.file ++ " | " ++ issue.message

end Issue

/-! ## What analyses read -/

/-- Everything the analyses of one scan read. -/
structure Audit where
  disk : Disk
  root : String
  options : Options
  filter : IgnoreFilter
  files : List SurveyedFile

namespace Audit

/-- Where a place of a file comes from. -/
def origin (audit : Audit) (file : SurveyedFile) (place : Location) : SourceMap.Origin :=
  SourceMap.locate audit.disk audit.options audit.root file.asset (some place)

/-- Where a place of a file comes from, unless a rule says to ignore it (`locate`). -/
def reported? (audit : Audit) (file : SurveyedFile) (place : Location) : Option SourceMap.Origin :=
  let origin := audit.origin file place
  if audit.filter.ignores file.asset origin.line? (some origin.source) then none else some origin

/-- The files that `isOwn` accepts, then the pages. -/
def inOrder (audit : Audit) (isOwn : SurveyedFile → Bool) : List SurveyedFile :=
  audit.files.filter isOwn ++ audit.files.filter (·.isPage)

/-- The script files, then the pages. -/
def scriptsAndPages (audit : Audit) : List SurveyedFile := audit.inOrder (·.isScript)

end Audit
end AssetAudit
