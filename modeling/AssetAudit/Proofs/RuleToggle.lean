import AssetAudit.Proofs.IgnoredIssue
import AssetAudit.Proofs.SurveyedFacts
import AssetAudit.Proofs.UnremovedListener

/-!
# What a toggle switches

`IssueKind.toggle` is the toggle of a kind of issue. `IsSwitched` says of an analysis that under any
rules it finds what it finds with every toggle on, less the issues whose toggle is off. A list that is
found as a whole or not at all is switched (`isSwitched_of_toggle`), and so is what is put together of
such lists (`IsSwitched.append`, `IsSwitched.flatMap`). All four analyses are of this form
(`isSwitched_analyse`), so a toggle takes away the issues of its own types and no other
(`toggle_off_drops_its_types`).

The operations on elements are filed by what was called and not by the list they stand in, so here it
counts that the facts of a survey are sorted (`Script.Gathered.isSorted`).
-/
namespace AssetAudit

/-! ## The toggle of an issue -/

/-- The toggle that switches issues of a kind. -/
def IssueKind.toggle : IssueKind → Toggle
  | .globalSelector .. => .globalSelector
  | .criticalGlobalStyle .. => .criticalGlobalStyle
  | .complexSelector .. => .complexSelector
  | .importantDeclaration .. | .globalImportantDeclaration .. => .importantDeclaration
  | .duplicateRule .. => .duplicateRule
  | .globalStyleSideEffect .. => .globalStyleSideEffect
  | .globalVarDeclaration .. => .globalVarDeclaration
  | .builtInOverride .. => .builtInOverride
  | .unremovedEventListener .. => .unRemovedEventListener
  | .anonymousEventHandler .. => .anonymousEventHandler
  | .inlineEventHandler .. => .inlineEventHandler
  | .untrackedDynamicElement .. => .untrackedDynamicElement
  | .dynamicElementAppend .. => .dynamicElementAppend
  | .dynamicElementInsert .. => .dynamicElementInsert
  | .dynamicElementRemove .. => .dynamicElementRemove

/-- The types of the issues that a toggle switches. The exclusion of selectors after a class changes
what counts as global and has no type of its own. -/
def Toggle.types : Toggle → List String
  | .excludeGlobalSelectorAfterClass => []
  | .unRemovedEventListener => ["unremoved_event_listener"]
  | .anonymousEventHandler => ["anonymous_event_handler"]
  | .inlineEventHandler => ["inline_event_handler"]
  | .dynamicElementAppend => ["dynamic_element_append"]
  | .dynamicElementRemove => ["dynamic_element_remove"]
  | .dynamicElementInsert => ["dynamic_element_insert"]
  | .untrackedDynamicElement => ["untracked_dynamic_element"]
  | .globalVarDeclaration => ["global_var_declaration"]
  | .builtInOverride => ["built_in_override"]
  | .criticalGlobalStyle => ["critical_global_style"]
  | .globalSelector => ["global_selector"]
  | .complexSelector => ["complex_selector"]
  | .importantDeclaration => ["important_declaration", "global_important_declaration"]
  | .duplicateRule => ["duplicate_rule"]
  | .globalStyleSideEffect => ["global_style_side_effect"]

theorem Toggle.mem_all (toggle : Toggle) : toggle ∈ Toggle.all := by cases toggle <;> decide

/-- No type belongs to two toggles. -/
theorem Toggle.eq_of_mem_types : ∀ a ∈ Toggle.all, ∀ b ∈ Toggle.all, ∀ type ∈ a.types,
    type ∈ b.types → a = b := by
  decide +kernel

theorem IssueKind.typeName_mem_types (kind : IssueKind) : kind.typeName ∈ kind.toggle.types := by
  cases kind <;> simp [IssueKind.typeName, IssueKind.toggle, Toggle.types]

theorem typeName_mem_types_iff {kind : IssueKind} {toggle : Toggle} :
    kind.typeName ∈ toggle.types ↔ kind.toggle = toggle := by
  constructor
  · exact Toggle.eq_of_mem_types _ (Toggle.mem_all _) _ (Toggle.mem_all _) _ kind.typeName_mem_types
  · rintro rfl
    exact kind.typeName_mem_types

namespace Rules

/-- Whether the toggle of an issue is on. -/
def reports (rules : Rules) (issue : Issue) : Bool := rules.get issue.kind.toggle

/-- Every toggle on, with the exclusion of selectors after a class as it is. -/
def full (rules : Rules) : Rules where
  excludeGlobalSelectorAfterClass := rules.excludeGlobalSelectorAfterClass
  unRemovedEventListener := true
  anonymousEventHandler := true
  inlineEventHandler := true
  dynamicElementAppend := true
  dynamicElementRemove := true
  dynamicElementInsert := true
  untrackedDynamicElement := true
  globalVarDeclaration := true
  builtInOverride := true
  criticalGlobalStyle := true
  globalSelector := true
  complexSelector := true
  importantDeclaration := true
  duplicateRule := true
  globalStyleSideEffect := true

theorem get_set (rules : Rules) (toggle other : Toggle) (on : Bool) :
    (rules.set toggle on).get other = if other = toggle then on else rules.get other := by
  cases toggle <;> cases other <;> rfl

theorem get_full {toggle : Toggle} (h : toggle ≠ .excludeGlobalSelectorAfterClass) (rules : Rules) :
    rules.full.get toggle = true := by
  cases toggle with
  | excludeGlobalSelectorAfterClass => exact absurd rfl h
  | _ => rfl

theorem exclude_set {toggle : Toggle} (h : toggle ≠ .excludeGlobalSelectorAfterClass)
    (rules : Rules) (on : Bool) :
    (rules.set toggle on).excludeGlobalSelectorAfterClass =
      rules.excludeGlobalSelectorAfterClass := by
  have hget := get_set rules toggle .excludeGlobalSelectorAfterClass on
  rw [if_neg h.symm] at hget
  exact hget

theorem full_set {toggle : Toggle} (h : toggle ≠ .excludeGlobalSelectorAfterClass)
    (rules : Rules) (on : Bool) : (rules.set toggle on).full = rules.full := by
  rw [full, full, exclude_set h]

end Rules

/-! ## Operations in the lists of their methods -/

namespace Script

/-- Whether the operations that move elements stand in the lists of the methods they call. -/
structure Facts.IsSorted (facts : Facts) : Prop where
  appended : ∀ operation ∈ facts.appended, operation.method = .appendChild
  inserted : ∀ operation ∈ facts.inserted, operation.method = .insertBefore
  detached : ∀ operation ∈ facts.detached, operation.method = .removeChild

theorem method_of_mem_filterMap {method : ElementMethod} {found : List Fact}
    {operation : ElementOperation} (h : operation ∈ found.filterMap (Fact.operation? [method])) :
    operation.method = method := by
  obtain ⟨fact, -, hfact⟩ := List.mem_filterMap.1 h
  cases fact with
  | operation other =>
    simp only [Fact.operation?, Option.ite_none_right_eq_some, Option.some.injEq] at hfact
    obtain ⟨hmethod, rfl⟩ := hfact
    simpa using hmethod
  | _ => cases hfact

theorem isSorted_extract {reading : Reading} {code : String} {facts : Facts}
    (h : extract reading code = .ok facts) : facts.IsSorted := by
  unfold extract at h
  simp only at h
  split at h
  · cases h
    exact ⟨fun _ => method_of_mem_filterMap, fun _ => method_of_mem_filterMap,
      fun _ => method_of_mem_filterMap⟩
  · cases h

theorem isSorted_empty : Facts.empty.IsSorted :=
  ⟨by simp [Facts.empty], by simp [Facts.empty], by simp [Facts.empty]⟩

theorem Facts.IsSorted.merge {a b : Facts} (ha : a.IsSorted) (hb : b.IsSorted) :
    (a.merge b).IsSorted where
  appended operation h := (List.mem_append.1 h).elim (ha.appended operation) (hb.appended operation)
  inserted operation h := (List.mem_append.1 h).elim (ha.inserted operation) (hb.inserted operation)
  detached operation h := (List.mem_append.1 h).elim (ha.detached operation) (hb.detached operation)

theorem Gathered.isSorted {facts : Facts} (h : Gathered facts) : facts.IsSorted := by
  induction h with
  | empty => exact isSorted_empty
  | script hfacts => exact isSorted_extract hfacts
  | merge _ _ iha ihb => exact iha.merge ihb

end Script

/-! ## Lists that toggles switch -/

/-- Whether what is found under some rules is what is found with every toggle on, less the issues whose
toggle is off. -/
def IsSwitched (find : Rules → List Issue) : Prop :=
  ∀ rules, find rules = (find rules.full).filter rules.reports

theorem IssueKind.toggle_ne (kind : IssueKind) : kind.toggle ≠ .excludeGlobalSelectorAfterClass := by
  cases kind <;> exact Toggle.noConfusion

/-- Issues of one toggle that are found as a whole, if it is on, are switched. A further condition must
not depend on the toggles. -/
theorem isSwitched_ite (toggle : Toggle) (p : Rules → Bool) {all : List Issue}
    (hkind : ∀ issue ∈ all, issue.kind.toggle = toggle) (hp : ∀ rules, p rules.full = p rules) :
    IsSwitched fun rules => if rules.get toggle && p rules then all else [] := by
  intro rules
  have hfull : ∀ issue ∈ all, rules.full.get toggle = true := by
    intro issue hissue
    have hne := issue.kind.toggle_ne
    rw [hkind issue hissue] at hne
    exact Rules.get_full hne rules
  have hreports : ∀ issue ∈ all, rules.reports issue = rules.get toggle := by
    intro issue hissue
    rw [Rules.reports, hkind issue hissue]
  cases all with
  | nil => simp
  | cons first rest =>
    simp only [hfull first List.mem_cons_self, hp, Bool.true_and, Bool.and_eq_true]
    by_cases hcond : p rules = true
    · rw [if_pos hcond]
      cases hget : rules.get toggle with
      | true =>
        rw [if_pos ⟨rfl, hcond⟩, eq_comm, List.filter_eq_self]
        exact fun issue hissue => by rw [hreports issue hissue, hget]
      | false =>
        rw [if_neg (by simp), eq_comm, List.filter_eq_nil_iff]
        exact fun issue hissue => by simp [hreports issue hissue, hget]
    · rw [if_neg fun h => hcond h.2, if_neg hcond, List.filter_nil]

theorem isSwitched_of_toggle (toggle : Toggle) {all : List Issue}
    (hkind : ∀ issue ∈ all, issue.kind.toggle = toggle) :
    IsSwitched fun rules => if rules.get toggle then all else [] := by
  have h := isSwitched_ite toggle (fun _ => true) hkind fun _ => rfl
  simpa only [Bool.and_true] using h

theorem isSwitched_nil : IsSwitched fun _ => [] := fun _ => rfl

theorem IsSwitched.append {f g : Rules → List Issue} (hf : IsSwitched f) (hg : IsSwitched g) :
    IsSwitched fun rules => f rules ++ g rules := by
  intro rules
  simp only [List.filter_append, ← hf rules, ← hg rules]

theorem IsSwitched.flatMap {α : Type} {items : List α} {f : Rules → α → List Issue}
    (h : ∀ item ∈ items, IsSwitched fun rules => f rules item) :
    IsSwitched fun rules => items.flatMap (f rules) := by
  intro rules
  simp only [List.filter_flatMap]
  exact List.flatMap_congr fun item hitem => h item hitem rules

theorem IsSwitched.filterMap {α : Type} {items : List α} {f : Rules → α → Option Issue}
    (h : ∀ item ∈ items, IsSwitched fun rules => (f rules item).toList) :
    IsSwitched fun rules => items.filterMap (f rules) := by
  simpa only [List.filterMap_eq_flatMap_toList] using IsSwitched.flatMap h

/-- The audit under other rules. -/
def Audit.withRules (audit : Audit) (rules : Rules) : Audit :=
  { audit with options := { audit.options with rules } }

theorem origin_withRules (audit : Audit) (rules : Rules) (file : SurveyedFile) (place : Location) :
    (audit.withRules rules).origin file place = audit.origin file place := by
  simp only [Audit.origin, SourceMap.locate, Audit.withRules]
  split <;> rfl

theorem reported?_withRules (audit : Audit) (rules : Rules) (file : SurveyedFile)
    (place : Location) : (audit.withRules rules).reported? file place = audit.reported? file place := by
  simp only [Audit.reported?, origin_withRules]
  rfl

namespace Analysis

variable (audit : Audit) (file : SurveyedFile)

/-! ## Styles -/

namespace Style

open AssetAudit.Style (Rule Declaration)

theorem kind_issueAt (origin : SourceMap.Origin) (kind : IssueKind) (severity : Severity)
    (message : String) : (issueAt file origin kind severity message).kind = kind :=
  Issue.kind_inPage _ _ _

section Emit

variable {emit : Emit} (hemit : ∀ kind severity message, (emit kind severity message).kind = kind)
include hemit

theorem toggle_of_mem_singleton (kind : IssueKind) (severity : Severity) (message : String) :
    ∀ issue ∈ [emit kind severity message], issue.kind.toggle = kind.toggle := by
  intro issue h
  rw [List.mem_singleton.1 h, hemit]

theorem isSwitched_criticalIssue (rule : Rule) (selector : String) :
    IsSwitched fun rules => criticalIssue rules emit rule selector := by
  refine isSwitched_ite .criticalGlobalStyle _ ?_ fun _ => rfl
  intro issue h
  simp only at h
  split at h
  · cases h
  · exact toggle_of_mem_singleton hemit _ _ _ issue h

theorem isSwitched_globalIssue (selector : String) :
    IsSwitched fun rules => globalIssue rules emit selector := by
  unfold globalIssue
  cases (partsOf selector).find? globalParts.contains with
  | none => exact isSwitched_nil
  | some part =>
    exact isSwitched_ite .globalSelector
      (fun rules => countsAsGlobal rules.excludeGlobalSelectorAfterClass selector)
      (toggle_of_mem_singleton hemit _ _ _) fun _ => rfl

theorem isSwitched_sideEffectIssue (selectors : String) (declaration : Declaration) :
    IsSwitched fun rules => sideEffectIssue rules emit selectors declaration := by
  exact isSwitched_ite .globalStyleSideEffect _ (toggle_of_mem_singleton hemit _ _ _) fun _ => rfl

theorem isSwitched_globalImportantIssue (selectors : String) (declaration : Declaration) :
    IsSwitched fun rules => globalImportantIssue rules emit selectors declaration := by
  unfold globalImportantIssue
  simp only [Bool.and_comm declaration.important]
  exact isSwitched_ite .importantDeclaration _ (toggle_of_mem_singleton hemit _ _ _) fun _ => rfl

theorem isSwitched_globalRuleIssues (rule : Rule) :
    IsSwitched fun rules => globalRuleIssues rules emit rule := by
  refine IsSwitched.append (.flatMap fun selector _ => ?_) (.flatMap fun declaration _ => ?_)
  · exact (isSwitched_criticalIssue hemit rule selector).append (isSwitched_globalIssue hemit selector)
  · exact (isSwitched_sideEffectIssue hemit _ declaration).append
      (isSwitched_globalImportantIssue hemit _ declaration)

theorem isSwitched_complexIssues (rule : Rule) :
    IsSwitched fun rules => complexIssues rules emit rule := by
  refine isSwitched_of_toggle .complexSelector ?_
  intro issue h
  obtain ⟨selector, -, h⟩ := List.mem_filterMap.1 h
  simp only [Option.ite_none_right_eq_some, Option.some.injEq] at h
  rw [← h.2, hemit]
  rfl

theorem isSwitched_importantIssues (rule : Rule) :
    IsSwitched fun rules => importantIssues rules emit rule := by
  refine isSwitched_of_toggle .importantDeclaration ?_
  intro issue h
  obtain ⟨declaration, -, rfl⟩ := List.mem_map.1 h
  rw [hemit]
  rfl

theorem isSwitched_duplicateIssue (rule : Rule) (seen : List String) :
    IsSwitched fun rules => duplicateIssue rules emit rule seen := by
  exact isSwitched_ite .duplicateRule _ (toggle_of_mem_singleton hemit _ _ _) fun _ => rfl

end Emit

theorem isSwitched_ruleIssues : ∀ (found : List Rule) (seen : List String),
    IsSwitched fun rules => ruleIssues (audit.withRules rules) file seen found
  | [], _ => isSwitched_nil
  | rule :: found, seen => by
    unfold ruleIssues
    simp only [reported?_withRules]
    cases audit.reported? file rule.location with
    | none => exact isSwitched_ruleIssues found seen
    | some origin =>
      have hemit := kind_issueAt file origin
      refine IsSwitched.append (isSwitched_complexIssues hemit rule) ?_
      cases file.isPage with
      | true => exact isSwitched_ruleIssues found seen
      | false =>
        exact ((isSwitched_importantIssues hemit rule).append
          (isSwitched_duplicateIssue hemit rule seen)).append (isSwitched_ruleIssues found _)

theorem isSwitched_fileIssues : IsSwitched fun rules => fileIssues (audit.withRules rules) file := by
  unfold fileIssues
  cases file.style? with
  | none => exact isSwitched_nil
  | some facts =>
    refine IsSwitched.append (.flatMap fun rule _ => ?_) (isSwitched_ruleIssues audit file _ _)
    simp only [reported?_withRules]
    cases audit.reported? file rule.location with
    | none => exact isSwitched_nil
    | some origin => exact isSwitched_globalRuleIssues (kind_issueAt file origin) rule

end Style

/-! ## Scripts -/

theorem Global.toggle_of_issueFor? (global : Script.GlobalVariable) (kind : IssueKind)
    (severity : Severity) (message : String) :
    ∀ issue ∈ (Global.issueFor? audit file global kind severity message).toList,
      issue.kind.toggle = kind.toggle := by
  intro issue h
  obtain ⟨origin, -, rfl⟩ := Option.map_eq_some_iff.1 (Option.mem_toList.1 h)
  rw [Issue.kind_inPage, Issue.kind_withFallbackCode]
  rfl

theorem Global.issueFor?_withRules (rules : Rules) :
    Global.issueFor? (audit.withRules rules) file = Global.issueFor? audit file := by
  funext global kind severity message
  simp only [Global.issueFor?, reported?_withRules]

theorem Global.isSwitched_fileIssues :
    IsSwitched fun rules => Global.fileIssues (audit.withRules rules) file := by
  unfold Global.fileIssues
  cases file.script? with
  | none => exact isSwitched_nil
  | some facts =>
    refine IsSwitched.append (.filterMap fun global _ => ?_) (.filterMap fun global _ => ?_)
    · unfold Global.declaration?
      simp only [apply_ite Option.toList, Option.toList_none, Global.issueFor?_withRules]
      exact isSwitched_ite .globalVarDeclaration (fun _ => !(file.isScript && global.kind == .var))
        (Global.toggle_of_issueFor? audit file global _ _ _) fun _ => rfl
    · unfold Global.override?
      simp only [apply_ite Option.toList, Option.toList_none, Bool.and_assoc, Global.issueFor?_withRules]
      exact isSwitched_ite .builtInOverride
        (fun _ => global.kind != .var && builtIns.contains global.name)
        (Global.toggle_of_issueFor? audit file global _ _ _) fun _ => rfl

/-! ## Elements -/

namespace Element

theorem issueFor?_withRules (rules : Rules) :
    issueFor? (audit.withRules rules) file = issueFor? audit file := by
  funext operation kind message
  simp only [issueFor?, reported?_withRules]

theorem kind_of_issueFor? {operation : Script.ElementOperation} {kind : IssueKind}
    {message : String} {issue : Issue}
    (h : issueFor? audit file operation kind message = some issue) : issue.kind = kind := by
  obtain ⟨origin, -, rfl⟩ := Option.map_eq_some_iff.1 h
  rw [Issue.kind_inPage, Issue.kind_withFallbackCode]
  rfl

/-- The toggle of the operations that call a method. -/
def toggleOf : Script.ElementMethod → Toggle
  | .appendChild => .dynamicElementAppend
  | .insertBefore => .dynamicElementInsert
  | _ => .dynamicElementRemove

theorem toggle_of_operation? {operation : Script.ElementOperation} {issue : Issue}
    (h : operation? audit file operation = some issue) :
    issue.kind.toggle = toggleOf operation.method := by
  unfold operation? at h
  simp only at h
  cases hmethod : operation.method <;> rw [hmethod] at h <;> rw [kind_of_issueFor? audit file h] <;> rfl

theorem isSwitched_operations (toggle : Toggle) {found : List Script.ElementOperation}
    (h : ∀ operation ∈ found, toggleOf operation.method = toggle) :
    IsSwitched fun rules => operations (audit.withRules rules) file (rules.get toggle) found := by
  have hsame : ∀ rules, operation? (audit.withRules rules) file = operation? audit file := by
    intro rules
    funext operation
    simp only [operation?, issueFor?_withRules]
  simp only [operations, hsame]
  refine isSwitched_of_toggle toggle ?_
  intro issue hissue
  obtain ⟨operation, hfound, hsome⟩ := List.mem_filterMap.1 hissue
  rw [toggle_of_operation? audit file hsome, h operation hfound]

theorem isSwitched_fileIssues (h : ∀ facts, file.script? = some facts → facts.IsSorted) :
    IsSwitched fun rules => fileIssues (audit.withRules rules) file := by
  unfold fileIssues
  cases hscript : file.script? with
  | none => exact isSwitched_nil
  | some facts =>
    obtain ⟨happended, hinserted, hdetached⟩ := h facts hscript
    refine IsSwitched.append (.append (.append (.filterMap fun created _ => ?_) ?_) ?_) ?_
    · unfold untracked?
      simp only [apply_ite Option.toList, Option.toList_none, issueFor?_withRules]
      refine isSwitched_ite .untrackedDynamicElement
        (fun _ => !facts.detached.any (·.element == created.element)) ?_ fun _ => rfl
      intro issue hissue
      rw [kind_of_issueFor? audit file (Option.mem_toList.1 hissue)]
      rfl
    · exact isSwitched_operations audit file .dynamicElementAppend fun operation ho =>
        congrArg toggleOf (happended operation ho)
    · exact isSwitched_operations audit file .dynamicElementInsert fun operation ho =>
        congrArg toggleOf (hinserted operation ho)
    · exact isSwitched_operations audit file .dynamicElementRemove fun operation ho =>
        congrArg toggleOf (hdetached operation ho)

end Element

/-! ## Listeners -/

namespace Listener

theorem isSwitched_anonymousIssues :
    IsSwitched fun rules => anonymousIssues (audit.withRules rules) file := by
  unfold anonymousIssues
  cases file.script? with
  | none => exact isSwitched_nil
  | some facts =>
    simp only [reported?_withRules]
    refine isSwitched_of_toggle .anonymousEventHandler ?_
    intro issue h
    obtain ⟨listener, -, h⟩ := List.mem_filterMap.1 h
    obtain ⟨origin, -, rfl⟩ := Option.map_eq_some_iff.1 h
    rw [Issue.kind_inPage, issueAt, Issue.kind_withFallbackCode]
    rfl

theorem isSwitched_inlineIssues :
    IsSwitched fun rules => inlineIssues (audit.withRules rules) file := by
  unfold inlineIssues
  cases file.page? with
  | none => exact isSwitched_nil
  | some page =>
    simp only [origin_withRules]
    refine isSwitched_of_toggle .inlineEventHandler ?_
    intro issue h
    obtain ⟨handler, -, rfl⟩ := List.mem_map.1 h
    rw [issueAt, Issue.kind_withFallbackCode]
    rfl

theorem resolveKeys_withRules (rules : Rules) :
    ∀ (queries : List (Script.Listener × SourceMap.Origin)) (memory : Memory),
      resolveKeys (audit.withRules rules) queries memory = resolveKeys audit queries memory
  | [], _ => rfl
  | (listener, origin) :: queries, memory => by
    have hkey : resolveKey (audit.withRules rules) listener origin memory =
        resolveKey audit listener origin memory := rfl
    simp only [resolveKeys, hkey, resolveKeys_withRules rules queries]

theorem unremoved_withRules (rules : Rules) (candidates : List Candidate) (memory : Memory) :
    unremoved (audit.withRules rules) candidates memory = unremoved audit candidates memory := by
  have hremovals : removals (audit.withRules rules) = removals audit := by
    simp only [removals, origin_withRules]
    rfl
  simp only [unremoved, hremovals, resolveKeys_withRules]

theorem candidates_withRules (rules : Rules) :
    candidates (audit.withRules rules) = candidates audit := by
  funext file
  simp only [candidates, reported?_withRules]

theorem isSwitched_issues (memory : Memory) :
    IsSwitched fun rules => (issues (audit.withRules rules) memory).1 := by
  have hfiles : ∀ rules, (audit.withRules rules).scriptsAndPages = audit.scriptsAndPages :=
    fun _ => rfl
  simp only [fst_issues, unremoved_withRules, candidates_withRules, hfiles]
  refine IsSwitched.append (.flatMap fun file _ => ?_) (isSwitched_of_toggle .unRemovedEventListener ?_)
  · exact (isSwitched_anonymousIssues audit file).append (isSwitched_inlineIssues audit file)
  · intro issue h
    obtain ⟨candidate, -, rfl⟩ := List.mem_map.1 h
    rw [unremovedIssue, issueAt, Issue.kind_withFallbackCode]
    rfl

end Listener
end Analysis

/-! ## Scans -/

open Analysis in
theorem isSwitched_analyse (audit : Audit)
    (h : ∀ file ∈ audit.files, ∀ facts, file.script? = some facts → facts.IsSorted)
    (memory : Memory) (category : Category) :
    IsSwitched fun rules => (Scan.analyse (audit.withRules rules) memory).1.get category := by
  cases category with
  | styles =>
    exact IsSwitched.flatMap fun file (_ : file ∈ audit.inOrder (·.isStyle)) =>
      Style.isSwitched_fileIssues audit file
  | globals =>
    exact IsSwitched.flatMap fun file (_ : file ∈ audit.scriptsAndPages) =>
      Global.isSwitched_fileIssues audit file
  | listeners => exact Listener.isSwitched_issues audit memory
  | elements =>
    exact IsSwitched.flatMap fun file (hfile : file ∈ audit.scriptsAndPages) =>
      Element.isSwitched_fileIssues audit file (h file (mem_files_of_mem_inOrder hfile))

theorem IsSwitched.set_false {find : Rules → List Issue} (h : IsSwitched find) {toggle : Toggle}
    (htoggle : toggle ≠ .excludeGlobalSelectorAfterClass) (rules : Rules) :
    find (rules.set toggle false) =
      (find (rules.set toggle true)).filter (!toggle.types.contains ·.typeName) := by
  -- Both sides are the full list under a filter, and the filters differ in the toggle alone.
  rw [h, h (rules.set toggle true), Rules.full_set htoggle, Rules.full_set htoggle,
    List.filter_filter]
  refine List.filter_congr fun issue _ => ?_
  simp only [Rules.reports, Rules.get_set]
  by_cases hkind : issue.kind.toggle = toggle
  · have hmem : issue.typeName ∈ toggle.types := typeName_mem_types_iff.2 hkind
    simp [hkind, hmem]
  · have hmem : issue.typeName ∉ toggle.types := fun hmem => hkind (typeName_mem_types_iff.1 hmem)
    simp [hkind, hmem]

/-- The results without the issues of some types. -/
def Results.without (types : List String) (results : Results) : Results where
  styles := results.styles.filter (!types.contains ·.typeName)
  globals := results.globals.filter (!types.contains ·.typeName)
  listeners := results.listeners.filter (!types.contains ·.typeName)
  elements := results.elements.filter (!types.contains ·.typeName)

theorem Results.eq_without {results others : Results} {types : List String}
    (h : ∀ category, results.get category =
      (others.get category).filter (!types.contains ·.typeName)) :
    results = others.without types := by
  cases results
  exact Results.mk.injEq .. ▸ ⟨h .styles, h .globals, h .listeners, h .elements⟩

/-- Of the rules a survey reads the exclusion only. -/
theorem Survey.ofAssets_withRules {options : Options} {rules : Rules}
    (h : rules.excludeGlobalSelectorAfterClass = options.rules.excludeGlobalSelectorAfterClass)
    (filter : IgnoreFilter) (assets : AssetMap) :
    Survey.ofAssets { options with rules } filter assets = Survey.ofAssets options filter assets := by
  have hfile : Survey.surveyFile { options with rules } filter = Survey.surveyFile options filter := by
    funext asset
    simp only [Survey.surveyFile, Survey.examine, h]
  simp only [Survey.ofAssets, hfile]

/-- With a toggle off a scan finds what it finds with the toggle on, without the issues of the types
that the toggle switches. -/
theorem toggle_off_drops_its_types (disk : Disk) (root : String) (options : Options)
    (scannedAt : String) (assets : AssetMap) (toggle : Toggle)
    (htoggle : toggle ≠ .excludeGlobalSelectorAfterClass) :
    let scan (on : Bool) := Scan.ofAssets disk root
      { options with rules := options.rules.set toggle on } scannedAt assets
    (scan false).map (·.results) = (scan true).map (·.results.without toggle.types) := by
  intro scan
  -- Both scans survey the same: a survey reads the one rule that this toggle is not.
  simp only [scan, Scan.ofAssets, Survey.ofAssets_withRules (Rules.exclude_set htoggle _ _)]
  generalize hfilter : IgnoreFilter.ofEntries root options.ignored = filter
  generalize hsurvey : Survey.ofAssets options filter assets = survey
  split
  · rfl
  · refine congrArg Except.ok (Results.eq_without fun category => ?_)
    have hsorted : ∀ file ∈ survey.files, ∀ facts, file.script? = some facts → facts.IsSorted := by
      intro file hfile facts hfacts
      rw [← hsurvey] at hfile
      exact (gathered_script? hfile hfacts).isSorted
    exact (isSwitched_analyse (Scan.auditOf disk root options filter survey) hsorted
      (.ofFiles root survey.files) category).set_false htoggle options.rules

theorem important_off_drops_both_types :
    let sheet : Asset := ⟨"a.css", "body \x7b color: red !important; margin: 0 \x7d", none⟩
    let scan (on : Bool) := Scan.ofAssets (.atDirectory "/app") "/app"
      { rules := Rules.set {} .importantDeclaration on } "" ⟨[], [sheet], []⟩
    Toggle.importantDeclaration ≠ .excludeGlobalSelectorAfterClass ∧
      (scan false).map (·.results) =
        (scan true).map (·.results.without ["important_declaration", "global_important_declaration"]) :=
  ⟨by decide, toggle_off_drops_its_types (.atDirectory "/app") "/app" {} "" _ .importantDeclaration
    (by decide)⟩

end AssetAudit
