import AssetAudit.Analysis.Definition
import AssetAudit.Issue

/-!
# Listeners

Listeners that are registered and never removed, handlers that cannot be removed because they have no
name, and handlers in the attributes of pages.

A registration is matched first with the removals of its own file, by element and event. One that is
not matched is compared with all removals by the declaration of its handler.
-/
namespace AssetAudit.Analysis.Listener

open AssetAudit.Script

/-- An issue about a listener at a place in the sources. -/
def issueAt (file : SurveyedFile) (origin : SourceMap.Origin) (kind : IssueKind)
    (severity : Severity) (message code : String) : Issue :=
  (({ kind, severity, message, file := file.path } : Issue).located origin).withFallbackCode code

/-! ## Handlers without a name -/

/-- The registrations of a file that no call can undo (`anonymous_handlers`). -/
def anonymousIssues (audit : Audit) (file : SurveyedFile) : List Issue :=
  match file.script? with
  | none => []
  | some facts =>
    if audit.options.rules.anonymousEventHandler then
      (facts.added.filter (·.anonymous)).filterMap fun listener =>
        (audit.reported? file listener.location).map fun origin =>
          (issueAt file origin (.anonymousEventHandler listener.event listener.element) .info
            ("Anonymous handler for " ++ listener.event ++ " can never be removed")
            listener.code).inPage Issue.inlineScriptLabel file.isPage
    else []

/-! ## Handlers in attributes -/

/-- The handlers in the tags of a page (`inline_handlers`). -/
def inlineIssues (audit : Audit) (file : SurveyedFile) : List Issue :=
  match file.page? with
  | none => []
  | some page =>
    if audit.options.rules.inlineEventHandler then
      page.resources.inlineHandlers.map fun handler =>
        issueAt file (audit.origin file handler.location)
          (.inlineEventHandler handler.event handler.element) .info
          ("Inline on" ++ handler.event ++ " handler on " ++ handler.element ++
            " runs in the global scope") handler.code
    else []

/-! ## Listeners that stay -/

/-- A registration of a script that its own file does not remove. -/
structure Candidate where
  file : SurveyedFile
  listener : Script.Listener
  origin : SourceMap.Origin

/-- Whether a file removes a listener that it registers (`has_local_removal`). -/
def isRemovedHere (facts : Facts) (listener : Script.Listener) : Bool :=
  facts.removed.any (·.key == listener.key)

/-- The registrations of a file to compare with other files: those with a named handler and a known event
(`candidates`). -/
def candidates (audit : Audit) (file : SurveyedFile) : List Candidate :=
  match file.ownScript? with
  | none => []
  | some facts =>
    (facts.added.filter fun listener =>
      !listener.anonymous && !isRemovedHere facts listener && !listener.hasDynamicEvent).filterMap
      fun listener => (audit.reported? file listener.location).map (⟨file, listener, ·⟩)

/-- The issue of a registration that nothing removes (`unremoved_issue`). -/
def unremovedIssue (candidate : Candidate) : Issue :=
  let listener := candidate.listener
  issueAt candidate.file candidate.origin
    (.unremovedEventListener listener.event listener.element) .warning
    ("Event listener for " ++ listener.event ++ " on " ++ listener.element ++ " is never removed")
    listener.code

/-- The source file of a place, in normal form. -/
def sourceFile (root : String) (origin : SourceMap.Origin) : String :=
  Path.normalize (origin.file.getD (Path.join root origin.source))

/-- The key of the declaration of a listener's handler (`resolve_key`). A listener whose source is unknown
has none. -/
def resolveKey (audit : Audit) (listener : Script.Listener) (origin : SourceMap.Origin)
    (memory : Memory) : Option String × Memory :=
  if origin.isKnown then
    let file := sourceFile audit.root origin
    match memory.definition? file listener.definition with
    | some key => (key, memory)
    | none =>
      let project := ⟨audit.disk, audit.root, audit.options.ignoredGlobals⟩
      let (key, memory) := findDefinition project file listener.definition memory
      (key, memory.insertDefinition file listener.definition key)
  else (none, memory)

/-- The keys of several listeners, in their order. -/
def resolveKeys (audit : Audit) :
    List (Script.Listener × SourceMap.Origin) → Memory → List (Option String) × Memory
  | [], memory => ([], memory)
  | (listener, origin) :: rest, memory =>
    let (key, memory) := resolveKey audit listener origin memory
    let (keys, memory) := resolveKeys audit rest memory
    (key :: keys, memory)

/-- The removals of all script files. -/
def removals (audit : Audit) : List (Script.Listener × SourceMap.Origin) :=
  audit.files.flatMap fun file =>
    match file.ownScript? with
    | some facts =>
      facts.removed.map fun listener => (listener, audit.origin file listener.location)
    | none => []

/-- The registrations that no removal matches. -/
def unremoved (audit : Audit) (candidates : List Candidate) (memory : Memory) :
    List Candidate × Memory :=
  let removals := removals audit
  if candidates.isEmpty || removals.isEmpty then (candidates, memory)
  else
    let (removed, memory) := resolveKeys audit removals memory
    let (keys, memory) := resolveKeys audit (candidates.map fun c => (c.listener, c.origin)) memory
    let kept := (candidates.zip keys).filter fun (_, key) => key.isNone || !removed.contains key
    (kept.map (·.1), memory)

/-- The issues of all scripts and pages, and what was remembered on the way (`analyze`). -/
def issues (audit : Audit) (memory : Memory) : List Issue × Memory :=
  let perFile := audit.scriptsAndPages.flatMap fun file =>
    anonymousIssues audit file ++ inlineIssues audit file
  if audit.options.rules.unRemovedEventListener then
    let (kept, memory) := unremoved audit (audit.scriptsAndPages.flatMap (candidates audit)) memory
    (perFile ++ kept.map unremovedIssue, memory)
  else (perFile, memory)

end AssetAudit.Analysis.Listener
