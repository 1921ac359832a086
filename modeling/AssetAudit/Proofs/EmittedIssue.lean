import AssetAudit.Scan

/-!
# How issues come about

`emitted` is what the analyses find in one file, and every issue of a scan is found in a surveyed file
(`exists_emitted`). All issues come about in the same way, which `Arises` says once: an analysis has
something to say about a place of a file (`SurveyedFile.Backs`), asks where the place comes from, files
the issue there, and lets an issue in a part of a page point at the page. `arises_of_emitted` is the
only proof that looks into the analyses for it.

What follows for every issue of a scan: it has a source (`Arises.source`), its message is one of its kind
(`Arises.message`), and if it has a position it is filed under its source if that is known and else
under the file (`Arises.filed`).
-/
namespace AssetAudit

/-! ## Messages -/

namespace IssueKind

/-- How messages about a kind of issue start and end. An operation on an element starts with the
element. -/
def frame : IssueKind → String × String
  | globalSelector .. => ("Global selector ", " styles elements outside the module")
  | criticalGlobalStyle .. => ("Critical global style on ", "")
  | complexSelector .. => ("Selector ", ")")
  | importantDeclaration .. => ("!important used on ", "")
  | globalImportantDeclaration .. => ("Global rule ", " with !important")
  | duplicateRule .. => ("Rule ", " is declared more than once")
  | globalStyleSideEffect .. => ("Global rule ", " other applications")
  | globalVarDeclaration .. => ("Global variable ", " is declared on the shared global object")
  | builtInOverride .. => ("Built-in global ", " is overridden")
  | unremovedEventListener .. => ("Event listener for ", " is never removed")
  | anonymousEventHandler .. => ("Anonymous handler for ", " can never be removed")
  | inlineEventHandler .. => ("Inline on", " runs in the global scope")
  | untrackedDynamicElement .. => ("Dynamically created element ", " is never removed")
  | dynamicElementAppend .. | dynamicElementInsert .. | dynamicElementRemove .. => ("", " at runtime")

/-- Whether a message is one about a kind of issue. -/
def Fits (kind : IssueKind) (message : String) : Prop :=
  ∃ middle, message = kind.frame.1 ++ middle ++ kind.frame.2

theorem fits_of_end {kind : IssueKind} {last : String} (h : kind.frame = ("", last)) (text : String) :
    kind.Fits (text ++ last) :=
  ⟨text, by rw [h, String.empty_append]⟩

end IssueKind

namespace SurveyedFile

/-- Whether a message that goes on with what it quotes quotes the file. An operation names an element as a script
of the file does, and a declaration a property as a rule of the file does, which then is no page. -/
def Quotes (file : SurveyedFile) (message : String) : IssueKind → Prop
  | .dynamicElementAppend element .. | .dynamicElementInsert element .. | .dynamicElementRemove element .. =>
    (∃ rest, message = element ++ " is " ++ rest) ∧ ∃ facts, file.script? = some facts ∧
      ∃ o ∈ facts.appended ++ facts.inserted ++ facts.detached, o.element = element
  | .importantDeclaration _ property =>
    (∃ value, message = "!important used on " ++ property ++ ": " ++ value) ∧ file.isPage = false ∧
      ∃ facts, file.style? = some facts ∧ ∃ rule ∈ facts.rules,
        ∃ declaration ∈ rule.declarations, declaration.property = property
  | _ => True

/-- Whether a file bears out a message about a kind of issue. -/
structure Backs (file : SurveyedFile) (kind : IssueKind) (message : String) : Prop where
  fits : kind.Fits message
  quotes : file.Quotes message kind

end SurveyedFile

/-! ## Issues about places -/

/-- How an issue of a file comes about. Only in a page is nothing asked of the rules. -/
inductive Arises (audit : Audit) (file : SurveyedFile) : Issue → Prop
  | intro (base : Issue) (place : Location) (code label : String) (inPart : Bool)
    (backed : file.Backs base.kind base.message) (path : base.file = file.path)
    (kept : file.isPage = false → audit.reported? file place = some (audit.origin file place))
    (part : inPart = true → file.isPage = true)
    (labelled : label = Issue.inlineScriptLabel ∨ label = Issue.inlineStyleLabel) :
    Arises audit file
      (((base.located (audit.origin file place)).withFallbackCode code).inPage label inPart)

variable {audit : Audit} {file : SurveyedFile}

theorem reported?_eq_some {place : Location} {origin : SourceMap.Origin}
    (h : audit.reported? file place = some origin) : origin = audit.origin file place := by
  unfold Audit.reported? at h
  simp only [Option.ite_none_left_eq_some, Option.some.injEq] at h
  exact h.2.symm

/-- An issue of a file at a place that no rule ignores. -/
theorem arises_of_reported? {place : Location} {origin : SourceMap.Origin}
    (h : audit.reported? file place = some origin) (base : Issue)
    (backed : file.Backs base.kind base.message) (path : base.file = file.path) (code : String) {label : String}
    (labelled : label = Issue.inlineScriptLabel ∨ label = Issue.inlineStyleLabel) {inPart : Bool}
    (part : inPart = true → file.isPage = true) :
    Arises audit file (((base.located origin).withFallbackCode code).inPage label inPart) := by
  have horigin := reported?_eq_some h
  rw [horigin] at h ⊢
  exact .intro base place code label inPart backed path (fun _ => h) part labelled

namespace Analysis

/-! ## Style sheets -/

namespace Style

open AssetAudit.Style (Rule Declaration Facts)

variable {rules : Rules} {emit : Emit} {P : Issue → Prop}
  (hP : ∀ kind severity message, file.Backs kind message → P (emit kind severity message))

include hP

theorem forall_criticalIssue (rule : Rule) (selector : String) :
    ∀ issue ∈ criticalIssue rules emit rule selector, P issue := by
  intro issue h
  unfold criticalIssue at h
  split at h
  · simp only at h
    split at h
    · cases h
    · rw [List.mem_singleton.1 h]
      refine hP _ _ _ ⟨⟨selector ++ " affects the whole document: " ++
        ", ".intercalate (criticalDeclarations rule), ?_⟩, trivial⟩
      simp [IssueKind.frame, String.append_assoc]
  · cases h

theorem forall_globalIssue (selector : String) :
    ∀ issue ∈ globalIssue rules emit selector, P issue := by
  intro issue h
  unfold globalIssue at h
  split at h
  · rename_i part _
    split at h
    · rw [List.mem_singleton.1 h]
      exact hP _ _ _ ⟨⟨part, rfl⟩, trivial⟩
    · cases h
  · cases h

theorem forall_sideEffectIssue (selectors : String) (declaration : Declaration) :
    ∀ issue ∈ sideEffectIssue rules emit selectors declaration, P issue := by
  intro issue h
  unfold sideEffectIssue at h
  simp only at h
  split at h
  · rw [List.mem_singleton.1 h]
    have heffect : ∀ severe : Bool, ∃ middle, (if severe then
        "which can break the layout of other applications"
        else "which leaks into other applications") = middle ++ " other applications" := by
      intro severe
      cases severe with
      | true => exact ⟨"which can break the layout of", rfl⟩
      | false => exact ⟨"which leaks into", rfl⟩
    obtain ⟨middle, hmiddle⟩ := heffect
      (isSevere (Text.lowercase declaration.property) (lowerValue declaration))
    refine hP _ _ _ ⟨⟨selectors ++ " sets " ++ declaration.property ++ ": " ++ declaration.value ++
      ", " ++ middle, ?_⟩, trivial⟩
    rw [hmiddle]
    simp [IssueKind.frame, String.append_assoc]
  · cases h

theorem forall_globalImportantIssue (selectors : String) (declaration : Declaration) :
    ∀ issue ∈ globalImportantIssue rules emit selectors declaration, P issue := by
  intro issue h
  unfold globalImportantIssue at h
  split at h
  · rw [List.mem_singleton.1 h]
    refine hP _ _ _ ⟨⟨selectors ++ " forces " ++ declaration.property ++ ": " ++ declaration.value, ?_⟩,
      trivial⟩
    simp [IssueKind.frame, String.append_assoc]
  · cases h

theorem forall_globalRuleIssues (rule : Rule) :
    ∀ issue ∈ globalRuleIssues rules emit rule, P issue := by
  intro issue h
  unfold globalRuleIssues at h
  rcases List.mem_append.1 h with h | h
  · obtain ⟨selector, -, h⟩ := List.mem_flatMap.1 h
    rcases List.mem_append.1 h with h | h
    · exact forall_criticalIssue hP rule selector issue h
    · exact forall_globalIssue hP selector issue h
  · obtain ⟨declaration, -, h⟩ := List.mem_flatMap.1 h
    rcases List.mem_append.1 h with h | h
    · exact forall_sideEffectIssue hP _ declaration issue h
    · exact forall_globalImportantIssue hP _ declaration issue h

theorem forall_complexIssues (rule : Rule) : ∀ issue ∈ complexIssues rules emit rule, P issue := by
  intro issue h
  unfold complexIssues at h
  split at h
  · obtain ⟨selector, -, h⟩ := List.mem_filterMap.1 h
    simp only [Option.ite_none_right_eq_some, Option.some.injEq] at h
    rw [← h.2]
    refine hP _ _ _ ⟨⟨selector ++ " is too complex (complexity " ++ toString (complexity selector), ?_⟩,
      trivial⟩
    simp [IssueKind.frame, String.append_assoc]
  · cases h

theorem forall_importantIssues (hpage : file.isPage = false) {facts : Facts}
    (hstyle : file.style? = some facts) {rule : Rule} (hrule : rule ∈ facts.rules) :
    ∀ issue ∈ importantIssues rules emit rule, P issue := by
  intro issue h
  unfold importantIssues at h
  split at h
  · obtain ⟨declaration, hdeclaration, rfl⟩ := List.mem_map.1 h
    refine hP _ _ _ ⟨⟨declaration.property ++ ": " ++ declaration.value, ?_⟩, ⟨declaration.value, rfl⟩, hpage,
      facts, hstyle, rule, hrule, declaration, (List.mem_filter.1 hdeclaration).1, rfl⟩
    simp [IssueKind.frame, String.append_assoc]
  · cases h

theorem forall_duplicateIssue (rule : Rule) (seen : List String) :
    ∀ issue ∈ duplicateIssue rules emit rule seen, P issue := by
  intro issue h
  unfold duplicateIssue at h
  split at h
  · rw [List.mem_singleton.1 h]
    exact hP _ _ _ ⟨⟨rule.selectorText, rfl⟩, trivial⟩
  · cases h

omit hP

theorem arises_issueAt {place : Location} {origin : SourceMap.Origin}
    (h : audit.reported? file place = some origin) (kind : IssueKind) (severity : Severity)
    (message : String) (backed : file.Backs kind message) :
    Arises audit file (issueAt file origin kind severity message) :=
  arises_of_reported? h { kind, severity, message, file := file.path } backed rfl "" (Or.inr rfl) id

theorem arises_ruleIssues {facts : Facts} (hstyle : file.style? = some facts) :
    ∀ (found : List Rule) (seen : List String), found ⊆ facts.rules →
      ∀ issue ∈ ruleIssues audit file seen found, Arises audit file issue
  | [], _, _, _, h => by cases h
  | rule :: found, seen, hfound, issue, h => by
    obtain ⟨hrule, hfound⟩ := List.cons_subset.1 hfound
    unfold ruleIssues at h
    split at h
    · exact arises_ruleIssues hstyle found seen hfound issue h
    · rename_i origin horigin
      have hemit := arises_issueAt horigin
      simp only at h
      rcases List.mem_append.1 h with h | h
      · exact forall_complexIssues hemit rule issue h
      · split at h
        · exact arises_ruleIssues hstyle found seen hfound issue h
        · rename_i hpage
          rcases List.mem_append.1 h with h | h
          · rcases List.mem_append.1 h with h | h
            · exact forall_importantIssues hemit (Bool.not_eq_true _ ▸ hpage) hstyle hrule issue h
            · exact forall_duplicateIssue hemit rule seen issue h
          · exact arises_ruleIssues hstyle found _ hfound issue h

theorem arises_fileIssues : ∀ issue ∈ fileIssues audit file, Arises audit file issue := by
  intro issue h
  unfold fileIssues at h
  split at h
  · cases h
  · rename_i facts hstyle
    rcases List.mem_append.1 h with h | h
    · obtain ⟨rule, -, h⟩ := List.mem_flatMap.1 h
      split at h
      · rename_i origin horigin
        exact forall_globalRuleIssues (arises_issueAt horigin) rule issue h
      · cases h
    · exact arises_ruleIssues hstyle _ _ List.filter_sublist.subset issue h

end Style

/-! ## Scripts -/

theorem Global.arises_issueFor? {global : Script.GlobalVariable} {kind : IssueKind}
    {severity : Severity} {message : String} {issue : Issue} (backed : file.Backs kind message)
    (h : Global.issueFor? audit file global kind severity message = some issue) :
    Arises audit file issue := by
  obtain ⟨origin, horigin, rfl⟩ := Option.map_eq_some_iff.1 h
  exact arises_of_reported? horigin { kind, severity, message, file := file.path } backed rfl _
    (Or.inl rfl) id

theorem Global.arises_fileIssues : ∀ issue ∈ Global.fileIssues audit file, Arises audit file issue := by
  intro issue h
  unfold Global.fileIssues at h
  split at h
  · cases h
  · rcases List.mem_append.1 h with h | h
    · obtain ⟨global, -, h⟩ := List.mem_filterMap.1 h
      unfold Global.declaration? at h
      split at h
      · refine arises_issueFor? ?_ h
        exact ⟨⟨global.name, rfl⟩, trivial⟩
      · cases h
    · obtain ⟨global, -, h⟩ := List.mem_filterMap.1 h
      unfold Global.override? at h
      split at h
      · refine arises_issueFor? ?_ h
        exact ⟨⟨global.name, rfl⟩, trivial⟩
      · cases h

theorem Element.arises_issueFor? {operation : Script.ElementOperation} {kind : IssueKind}
    {message : String} {issue : Issue} (backed : file.Backs kind message)
    (h : Element.issueFor? audit file operation kind message = some issue) :
    Arises audit file issue := by
  obtain ⟨origin, horigin, rfl⟩ := Option.map_eq_some_iff.1 h
  exact arises_of_reported? horigin { kind, severity := .warning, message, file := file.path } backed
    rfl _ (Or.inl rfl) id

theorem Element.arises_operations {facts : Script.Facts} (hscript : file.script? = some facts) (on : Bool)
    {found : List Script.ElementOperation}
    (hfound : found ⊆ facts.appended ++ facts.inserted ++ facts.detached) :
    ∀ issue ∈ Element.operations audit file on found, Arises audit file issue := by
  intro issue h
  unfold Element.operations at h
  split at h
  · obtain ⟨operation, hoperation, h⟩ := List.mem_filterMap.1 h
    have hquoted := hfound hoperation
    -- what the three messages have in common behind the element
    have hverb : ∀ (way parent : String), ∃ rest,
        operation.element ++ (" is " ++ way) ++ parent ++ " at runtime" = operation.element ++ " is " ++ rest :=
      fun way parent => ⟨way ++ parent ++ " at runtime", by simp only [String.append_assoc]⟩
    unfold Element.operation? at h
    simp only at h
    split at h
    · refine arises_issueFor? ⟨IssueKind.fits_of_end rfl _, ?_⟩ h
      exact ⟨hverb "appended to " _, facts, hscript, operation, hquoted, rfl⟩
    · refine arises_issueFor? ⟨IssueKind.fits_of_end rfl _, ?_⟩ h
      exact ⟨hverb "inserted into " _, facts, hscript, operation, hquoted, rfl⟩
    · refine arises_issueFor? ⟨IssueKind.fits_of_end rfl _, ?_⟩ h
      exact ⟨hverb "removed from " _, facts, hscript, operation, hquoted, rfl⟩
  · cases h

theorem Element.arises_fileIssues :
    ∀ issue ∈ Element.fileIssues audit file, Arises audit file issue := by
  intro issue h
  unfold Element.fileIssues at h
  split at h
  · cases h
  · rename_i facts hscript
    simp only [List.mem_append] at h
    rcases h with ((h | h) | h) | h
    · obtain ⟨created, -, h⟩ := List.mem_filterMap.1 h
      unfold Element.untracked? at h
      split at h
      · refine arises_issueFor? ?_ h
        exact ⟨⟨created.element, rfl⟩, trivial⟩
      · cases h
    · exact arises_operations hscript _ (by simp) issue h
    · exact arises_operations hscript _ (by simp) issue h
    · exact arises_operations hscript _ (by simp) issue h

/-! ## Listeners -/

namespace Listener

theorem arises_anonymousIssues :
    ∀ issue ∈ anonymousIssues audit file, Arises audit file issue := by
  intro issue h
  unfold anonymousIssues at h
  split at h
  · cases h
  · split at h
    · obtain ⟨listener, -, h⟩ := List.mem_filterMap.1 h
      obtain ⟨origin, horigin, rfl⟩ := Option.map_eq_some_iff.1 h
      refine arises_of_reported? horigin { kind := _, severity := _, message := _, file := file.path }
        ⟨⟨listener.event, rfl⟩, ?_⟩ rfl _ (Or.inl rfl) id
      trivial
    · cases h

theorem arises_inlineIssues : ∀ issue ∈ inlineIssues audit file, Arises audit file issue := by
  intro issue h
  unfold inlineIssues at h
  split at h
  · cases h
  · rename_i page hpage
    have hisPage : file.isPage ≠ false := by
      unfold SurveyedFile.page? at hpage
      unfold SurveyedFile.isPage
      split at hpage
      · simp
      · cases hpage
    split at h
    · obtain ⟨handler, -, rfl⟩ := List.mem_map.1 h
      refine .intro { kind := _, severity := _, message := _, file := file.path } handler.location
        handler.code Issue.inlineScriptLabel false
        ⟨⟨handler.event ++ " handler on " ++ handler.element, ?_⟩, trivial⟩ rfl
        (fun hnot => absurd hnot hisPage) Bool.false_ne_true.elim (Or.inl rfl)
      simp [IssueKind.frame, String.append_assoc]
    · cases h

theorem arises_unremovedIssue :
    ∀ candidate ∈ candidates audit file, Arises audit file (unremovedIssue candidate) := by
  intro candidate h
  unfold candidates at h
  split at h
  · cases h
  · obtain ⟨listener, -, h⟩ := List.mem_filterMap.1 h
    obtain ⟨origin, horigin, rfl⟩ := Option.map_eq_some_iff.1 h
    refine arises_of_reported? horigin { kind := _, severity := _, message := _, file := file.path }
      ⟨⟨listener.event ++ " on " ++ listener.element, ?_⟩, ?_⟩ rfl _ (Or.inl rfl) Bool.false_ne_true.elim
    · simp [IssueKind.frame, String.append_assoc]
    · trivial

/-- Only candidates are reported. -/
theorem unremoved_subset (audit : Audit) (candidates : List Candidate) (memory : Memory) :
    (unremoved audit candidates memory).1 ⊆ candidates := by
  unfold unremoved
  simp only
  split
  · exact fun _ h => h
  · intro candidate h
    obtain ⟨pair, hpair, rfl⟩ := List.mem_map.1 h
    exact (List.of_mem_zip (List.mem_filter.1 hpair).1).1

end Listener
end Analysis

/-! ## Scans -/

open Analysis in
/-- What an analysis finds in a file. Registrations of listeners count here as soon as the file itself
does not remove them. -/
def emitted (audit : Audit) (file : SurveyedFile) : Category → List Issue
  | .styles => Style.fileIssues audit file
  | .globals => Global.fileIssues audit file
  | .listeners => Listener.anonymousIssues audit file ++ Listener.inlineIssues audit file ++
      (Listener.candidates audit file).map Listener.unremovedIssue
  | .elements => Element.fileIssues audit file

theorem arises_of_emitted (category : Category) :
    ∀ issue ∈ emitted audit file category, Arises audit file issue := by
  intro issue h
  cases category with
  | styles => exact Analysis.Style.arises_fileIssues issue h
  | globals => exact Analysis.Global.arises_fileIssues issue h
  | elements => exact Analysis.Element.arises_fileIssues issue h
  | listeners =>
    simp only [emitted, List.mem_append] at h
    rcases h with (h | h) | h
    · exact Analysis.Listener.arises_anonymousIssues issue h
    · exact Analysis.Listener.arises_inlineIssues issue h
    · obtain ⟨candidate, hc, rfl⟩ := List.mem_map.1 h
      exact Analysis.Listener.arises_unremovedIssue candidate hc

theorem mem_files_of_mem_inOrder {isOwn : SurveyedFile → Bool} (h : file ∈ audit.inOrder isOwn) :
    file ∈ audit.files := by
  rcases List.mem_append.1 h with h | h
  · exact (List.mem_filter.1 h).1
  · exact (List.mem_filter.1 h).1

theorem exists_emitted {memory : Analysis.Memory} {category : Category} {issue : Issue}
    (h : issue ∈ (Scan.analyse audit memory).1.get category) :
    ∃ file ∈ audit.files, issue ∈ emitted audit file category := by
  cases category with
  | styles =>
    obtain ⟨file, hfile, hissue⟩ := List.mem_flatMap.1 h
    exact ⟨file, mem_files_of_mem_inOrder hfile, hissue⟩
  | globals =>
    obtain ⟨file, hfile, hissue⟩ := List.mem_flatMap.1 h
    exact ⟨file, mem_files_of_mem_inOrder hfile, hissue⟩
  | elements =>
    obtain ⟨file, hfile, hissue⟩ := List.mem_flatMap.1 h
    exact ⟨file, mem_files_of_mem_inOrder hfile, hissue⟩
  | listeners =>
    have hperFile : ∀ issue ∈ audit.scriptsAndPages.flatMap fun file =>
        Analysis.Listener.anonymousIssues audit file ++ Analysis.Listener.inlineIssues audit file,
        ∃ file ∈ audit.files, issue ∈ emitted audit file .listeners := by
      intro issue h
      obtain ⟨file, hfile, hissue⟩ := List.mem_flatMap.1 h
      exact ⟨file, mem_files_of_mem_inOrder hfile, List.mem_append_left _ hissue⟩
    have h' : issue ∈ (Analysis.Listener.issues audit memory).1 := h
    unfold Analysis.Listener.issues at h'
    simp only at h'
    split at h'
    · rcases List.mem_append.1 h' with h' | h'
      · exact hperFile issue h'
      · obtain ⟨candidate, hc, rfl⟩ := List.mem_map.1 h'
        have hc' := Analysis.Listener.unremoved_subset _ _ _ hc
        obtain ⟨file, hfile, hcandidate⟩ := List.mem_flatMap.1 hc'
        exact ⟨file, mem_files_of_mem_inOrder hfile,
          List.mem_append_right _ (List.mem_map_of_mem hcandidate)⟩
    · exact hperFile issue h'

/-! ## What every issue has -/

/-- What may stand before a message: nothing, or in what part of a page the issue is. -/
def messageLeads : List String := ["", Issue.inlineScriptLabel, Issue.inlineStyleLabel]

/-- Nothing but the code changes with the fallback code. -/
theorem withFallbackCode_eq (issue : Issue) (code : String) :
    ∃ code', issue.withFallbackCode code = { issue with code := code' } := by
  unfold Issue.withFallbackCode
  split
  · exact ⟨issue.code, rfl⟩
  · exact ⟨_, rfl⟩

namespace Arises

variable {issue : Issue} (h : Arises audit file issue)
include h

theorem source : issue.source.isSome := by
  obtain ⟨base, place, code, label, inPart, -, -, -, -, -⟩ := h
  generalize audit.origin file place = origin
  obtain ⟨code', hcode⟩ := withFallbackCode_eq (base.located origin) code
  rw [hcode, Issue.inPage]
  split <;> rfl

/-- Only in a page does something stand before the message. -/
theorem message : ∃ lead ∈ messageLeads, ∃ text, file.Backs issue.kind text ∧ issue.message = lead ++ text ∧
    (file.isPage = false → lead = "") := by
  obtain ⟨base, place, code, label, inPart, backed, -, -, part, labelled⟩ := h
  generalize audit.origin file place = origin
  obtain ⟨code', hcode⟩ := withFallbackCode_eq (base.located origin) code
  rw [hcode, Issue.inPage]
  split
  · rename_i hpart
    refine ⟨label, ?_, base.message, backed, rfl, fun hpage => ?_⟩
    · rcases labelled with rfl | rfl <;> simp [messageLeads]
    · rw [part hpart] at hpage
      cases hpage
  · exact ⟨"", List.mem_cons_self, base.message, backed, String.empty_append.symm, fun _ => rfl⟩

/-- An issue with a position is filed under the source of the position, or else under the file. -/
theorem filed {position : Location} (hposition : issue.position = some position) :
    ∃ place origin, audit.origin file place = origin ∧ origin.location = some position ∧
      issue.source = some origin.source ∧
      issue.file = if origin.isKnown then origin.source else file.path := by
  obtain ⟨base, place, code, label, inPart, -, path, -, -, -⟩ := h
  generalize horigin : audit.origin file place = origin at hposition ⊢
  obtain ⟨code', hcode⟩ := withFallbackCode_eq (base.located origin) code
  rw [hcode, Issue.inPage] at hposition ⊢
  split at hposition
  · cases hposition
  · rename_i hwhole
    rw [if_neg hwhole, ← path]
    exact ⟨place, origin, horigin, hposition, rfl, rfl⟩

end Arises
end AssetAudit
