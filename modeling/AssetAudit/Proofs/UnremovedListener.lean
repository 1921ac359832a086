import AssetAudit.Proofs.DefinitionLookup
import AssetAudit.Proofs.TextSearch

/-!
# Which listeners are reported as never removed

`Stays` says when a registration of a script file is never removed: its handler has a name and its
event is known, its file has no removal for the element and the event, no rule ignores its place, and
no removal of any script file leads to the declaration of its handler. Declarations are those that
`keyOf?` finds, so neither what is remembered nor the order of lookups has a part in it.

The reported registrations are those that stay, in the order of the files and of their texts
(`unremoved_reports_exact`).
-/
namespace AssetAudit

/-- What is found for the items that pass a test, item by item. -/
theorem flatMap_filter {α β : Type} (p : α → Bool) (find : α → List β) : ∀ items : List α,
    (items.filter p).flatMap find = items.flatMap fun item => if p item then find item else []
  | [] => rfl
  | item :: items => by
    rw [List.filter_cons, List.flatMap_cons, ← flatMap_filter p find items]
    split <;> rfl

/-- The test can be left out if nothing is found for the items that do not pass it. -/
theorem flatMap_filter_of_forall {α β : Type} {p : α → Bool} {find : α → List β}
    (h : ∀ item, p item = false → find item = []) (items : List α) :
    (items.filter p).flatMap find = items.flatMap find := by
  rw [flatMap_filter]
  refine List.flatMap_congr fun item _ => ?_
  cases hp : p item with
  | true => rfl
  | false => exact (h item hp).symm

namespace Issue

theorem kind_withFallbackCode (issue : Issue) (code : String) :
    (issue.withFallbackCode code).kind = issue.kind := by
  unfold withFallbackCode
  split <;> rfl

theorem kind_inPage (label : String) (isPage : Bool) (issue : Issue) :
    (issue.inPage label isPage).kind = issue.kind := by
  unfold inPage
  split <;> rfl

/-- Of issues that all have one type, a test for a type keeps all or none. -/
theorem filter_typeName {issues : List Issue} {type : String}
    (h : ∀ issue ∈ issues, issue.typeName = type) (wanted : String) :
    issues.filter (fun issue => issue.typeName = wanted) = if type = wanted then issues else [] := by
  split
  · rename_i hsame
    exact List.filter_eq_self.2 fun issue hissue => decide_eq_true ((h issue hissue).trans hsame)
  · rename_i hother
    refine List.filter_eq_nil_iff.2 fun issue hissue => ?_
    rw [h issue hissue, decide_eq_true_iff]
    exact hother

end Issue

namespace Analysis.Listener

open AssetAudit.Script (Facts)

/-- Whether no removal of any script file leads to the declaration of a listener's handler. -/
def IsKept (audit : Audit) (listener : Script.Listener) (origin : SourceMap.Origin) : Prop :=
  keyOf? audit listener origin = none ∨
  ∀ file ∈ audit.files, ∀ facts ∈ file.ownScript?, ∀ removal ∈ facts.removed,
    keyOf? audit removal (audit.origin file removal.location) ≠ keyOf? audit listener origin

instance (audit : Audit) (listener : Script.Listener) (origin : SourceMap.Origin) :
    Decidable (IsKept audit listener origin) :=
  inferInstanceAs (Decidable (_ ∨ _))

/-- Whether a registration of a script file is never removed. -/
def Stays (audit : Audit) (file : SurveyedFile) (facts : Facts) (listener : Script.Listener) : Prop :=
  let origin := audit.origin file listener.location
  listener.anonymous = false ∧
  ¬ ("[variable:".toList <+: listener.event.toList ∨ listener.event = "unknown") ∧
  (∀ removal ∈ facts.removed,
    removal.element ++ ":" ++ removal.event ≠ listener.element ++ ":" ++ listener.event) ∧
  audit.filter.ignores file.asset origin.line? (some origin.source) = false ∧
  IsKept audit listener origin

instance (audit : Audit) (file : SurveyedFile) (facts : Facts) (listener : Script.Listener) :
    Decidable (Stays audit file facts listener) :=
  inferInstanceAs (Decidable (_ ∧ _ ∧ _ ∧ _ ∧ _))

/-! ## The types of issues -/

theorem typeName_of_mem_anonymousIssues {audit : Audit} {file : SurveyedFile} {issue : Issue}
    (h : issue ∈ anonymousIssues audit file) : issue.typeName = "anonymous_event_handler" := by
  unfold anonymousIssues at h
  split at h
  · cases h
  · split at h
    · obtain ⟨listener, -, hl⟩ := List.mem_filterMap.1 h
      obtain ⟨origin, -, rfl⟩ := Option.map_eq_some_iff.1 hl
      rw [Issue.typeName, Issue.kind_inPage, issueAt, Issue.kind_withFallbackCode]
      rfl
    · cases h

theorem typeName_of_mem_inlineIssues {audit : Audit} {file : SurveyedFile} {issue : Issue}
    (h : issue ∈ inlineIssues audit file) : issue.typeName = "inline_event_handler" := by
  unfold inlineIssues at h
  split at h
  · cases h
  · split at h
    · obtain ⟨handler, -, rfl⟩ := List.mem_map.1 h
      rw [Issue.typeName, issueAt, Issue.kind_withFallbackCode]
      rfl
    · cases h

theorem typeName_unremovedIssue (candidate : Candidate) :
    (unremovedIssue candidate).typeName = "unremoved_event_listener" := by
  rw [Issue.typeName, unremovedIssue, issueAt, Issue.kind_withFallbackCode]
  rfl

/-- The issues found file by file, then those of the registrations that no removal matches. -/
theorem fst_issues (audit : Audit) (memory : Memory) :
    (issues audit memory).1 =
      (audit.scriptsAndPages.flatMap fun file =>
        anonymousIssues audit file ++ inlineIssues audit file) ++
      if audit.options.rules.unRemovedEventListener then
        (unremoved audit (audit.scriptsAndPages.flatMap (candidates audit)) memory).1.map
          unremovedIssue
      else [] := by
  unfold issues
  simp only
  split
  · rfl
  · rw [List.append_nil]

/-- The issues of one type are among those of one of the three analyses. -/
theorem filter_issues (audit : Audit) (memory : Memory) (wanted : String) :
    (issues audit memory).1.filter (fun issue => issue.typeName = wanted) =
      (audit.scriptsAndPages.flatMap fun file =>
        (if "anonymous_event_handler" = wanted then anonymousIssues audit file else []) ++
          if "inline_event_handler" = wanted then inlineIssues audit file else []) ++
      if "unremoved_event_listener" = wanted then
        if audit.options.rules.unRemovedEventListener then
          (unremoved audit (audit.scriptsAndPages.flatMap (candidates audit)) memory).1.map
            unremovedIssue
        else []
      else [] := by
  have hunremoved : ∀ issue ∈ (if audit.options.rules.unRemovedEventListener then
      (unremoved audit (audit.scriptsAndPages.flatMap (candidates audit)) memory).1.map unremovedIssue
      else []), issue.typeName = "unremoved_event_listener" := by
    intro issue hissue
    split at hissue
    · obtain ⟨candidate, -, rfl⟩ := List.mem_map.1 hissue
      exact typeName_unremovedIssue candidate
    · cases hissue
  rw [fst_issues, List.filter_append, Issue.filter_typeName hunremoved, List.filter_flatMap]
  congr 1
  refine List.flatMap_congr fun file _ => ?_
  rw [List.filter_append, Issue.filter_typeName fun _ => typeName_of_mem_anonymousIssues,
    Issue.filter_typeName fun _ => typeName_of_mem_inlineIssues]

theorem filter_issues_unremoved (audit : Audit) (memory : Memory) :
    (issues audit memory).1.filter (fun issue => issue.typeName = "unremoved_event_listener") =
      if audit.options.rules.unRemovedEventListener then
        (unremoved audit (audit.scriptsAndPages.flatMap (candidates audit)) memory).1.map unremovedIssue
      else [] := by
  rw [filter_issues, if_pos rfl, List.flatMap_eq_nil_iff.2, List.nil_append]
  intro file _
  rw [if_neg (by decide), if_neg (by decide), List.append_nil]

/-! ## The registrations that are compared -/

/-- The tests that need one file only. -/
def isCandidate (audit : Audit) (file : SurveyedFile) (facts : Facts)
    (listener : Script.Listener) : Bool :=
  let origin := audit.origin file listener.location
  (!listener.anonymous && !isRemovedHere facts listener && !listener.hasDynamicEvent) &&
    !audit.filter.ignores file.asset origin.line? (some origin.source)

theorem candidates_eq {audit : Audit} {file : SurveyedFile} {facts : Facts}
    (h : file.ownScript? = some facts) :
    candidates audit file = (facts.added.filter (isCandidate audit file facts)).map
      fun listener => ⟨file, listener, audit.origin file listener.location⟩ := by
  simp only [candidates, h]
  rw [← List.filterMap_eq_map, List.filterMap_filter, List.filterMap_filter]
  refine List.filterMap_congr fun listener _ => ?_
  simp only [isCandidate, Audit.reported?, Function.comp_apply]
  by_cases hignored : audit.filter.ignores file.asset
      (audit.origin file listener.location).line?
      (some (audit.origin file listener.location).source) = true
  · simp [hignored]
  · simp [hignored]

/-- What only script files have is met in their order, whether or not the pages come after them. -/
theorem flatMap_scriptsAndPages {α : Type} (audit : Audit) {f : SurveyedFile → List α}
    (hf : ∀ file : SurveyedFile, file.ownScript? = none → f file = []) :
    audit.scriptsAndPages.flatMap f = audit.files.flatMap f := by
  have hown : ∀ file : SurveyedFile, file.isScript = false → f file = [] := by
    intro file hfile
    refine hf file ?_
    unfold SurveyedFile.ownScript?
    unfold SurveyedFile.isScript at hfile
    split at hfile
    · cases hfile
    · rfl
  have hpages : (audit.files.filter (·.isPage)).flatMap f = [] := by
    rw [List.flatMap_eq_nil_iff]
    intro file hfile
    refine hown file ?_
    have hpage := (List.mem_filter.1 hfile).2
    unfold SurveyedFile.isPage at hpage
    unfold SurveyedFile.isScript
    cases hf : file.findings <;> simp [hf] at hpage ⊢
  rw [Audit.scriptsAndPages, Audit.inOrder, List.flatMap_append, flatMap_filter_of_forall hown, hpages,
    List.append_nil]

/-- Pages add no registrations, so the order is that of the script files. -/
theorem flatMap_candidates (audit : Audit) :
    audit.scriptsAndPages.flatMap (candidates audit) = audit.files.flatMap (candidates audit) :=
  flatMap_scriptsAndPages audit fun file hown => by simp [candidates, hown]

/-! ## The comparison -/

theorem filter_zip_map {α β : Type} (p : β → Bool) (f : α → β) : ∀ items : List α,
    ((items.zip (items.map f)).filter fun pair => p pair.2).map Prod.fst =
      items.filter fun item => p (f item)
  | [] => rfl
  | item :: items => by
    rw [List.map_cons, List.zip_cons_cons, List.filter_cons, List.filter_cons]
    split
    · rw [List.map_cons, filter_zip_map p f items]
    · exact filter_zip_map p f items

/-- The keys of the removals, as the comparison computes them. -/
def removedKeys (audit : Audit) : List (Option String) :=
  (removals audit).map fun removal => keyOf? audit removal.1 removal.2

theorem mem_removedKeys {audit : Audit} {key : Option String} :
    key ∈ removedKeys audit ↔ ∃ file ∈ audit.files, ∃ facts ∈ file.ownScript?,
      ∃ removal ∈ facts.removed, keyOf? audit removal (audit.origin file removal.location) = key := by
  simp only [removedKeys, removals, List.map_flatMap, List.mem_flatMap]
  refine exists_congr fun file => and_congr_right fun _ => ?_
  cases file.ownScript? with
  | none => simp
  | some facts => simp

theorem isKept_iff {audit : Audit} {listener : Script.Listener} {origin : SourceMap.Origin} :
    IsKept audit listener origin ↔ keyOf? audit listener origin = none ∨
      keyOf? audit listener origin ∉ removedKeys audit := by
  rw [mem_removedKeys]
  simp only [not_exists, not_and, IsKept, ne_eq]

theorem unremoved_eq {audit : Audit} {memory : Memory}
    (h : Sound (projectOf audit) audit.files memory) (candidates : List Candidate) :
    (unremoved audit candidates memory).1 =
      candidates.filter fun c => IsKept audit c.listener c.origin := by
  unfold unremoved
  simp only
  split
  · rename_i hempty
    simp only [Bool.or_eq_true, List.isEmpty_iff] at hempty
    rcases hempty with rfl | hempty
    · rfl
    · symm
      rw [List.filter_eq_self]
      intro candidate _
      simp [isKept_iff, removedKeys, hempty]
  · obtain ⟨hremoved, hsound⟩ := resolveKeys_eq (removals audit) h
    obtain ⟨hkeys, -⟩ := resolveKeys_eq (candidates.map fun c => (c.listener, c.origin)) hsound
    rw [← removedKeys] at hremoved
    rw [hremoved, hkeys, List.map_map]
    refine (filter_zip_map (fun key => key.isNone || !(removedKeys audit).contains key) _ _).trans ?_
    refine List.filter_congr fun candidate _ => ?_
    rw [Bool.eq_iff_iff, decide_eq_true_iff, isKept_iff]
    simp

/-! ## The report -/

theorem hasDynamicEvent_iff (listener : Script.Listener) :
    listener.hasDynamicEvent = true ↔
      "[variable:".toList <+: listener.event.toList ∨ listener.event = "unknown" := by
  simp [Script.Listener.hasDynamicEvent, Text.startsWith_iff, Script.unknownName]

theorem stays_iff {audit : Audit} {file : SurveyedFile} {facts : Facts}
    {listener : Script.Listener} :
    Stays audit file facts listener ↔ isCandidate audit file facts listener = true ∧
      IsKept audit listener (audit.origin file listener.location) := by
  have hremoved : isRemovedHere facts listener = false ↔ ∀ removal ∈ facts.removed,
      removal.element ++ ":" ++ removal.event ≠ listener.element ++ ":" ++ listener.event := by
    simp [isRemovedHere, Script.Listener.key]
  unfold Stays isCandidate
  rw [← hremoved, ← hasDynamicEvent_iff]
  simp only [Bool.and_eq_true, Bool.not_eq_true', Bool.not_eq_true]
  constructor
  · rintro ⟨hnamed, hevent, hhere, hignored, hkept⟩
    exact ⟨⟨⟨⟨hnamed, hhere⟩, hevent⟩, hignored⟩, hkept⟩
  · rintro ⟨⟨⟨⟨hnamed, hhere⟩, hevent⟩, hignored⟩, hkept⟩
    exact ⟨hnamed, hevent, hhere, hignored, hkept⟩

/-- What is reported of a file: the registrations that stay. -/
theorem map_kept_candidates (audit : Audit) (file : SurveyedFile) :
    ((candidates audit file).filter fun c => IsKept audit c.listener c.origin).map unremovedIssue =
      match file.ownScript? with
      | none => []
      | some facts => (facts.added.filter (Stays audit file facts)).map fun listener =>
          unremovedIssue ⟨file, listener, audit.origin file listener.location⟩ := by
  cases hscript : file.ownScript? with
  | none => simp [candidates, hscript]
  | some facts =>
    rw [candidates_eq hscript, List.filter_map, List.map_map, List.filter_filter]
    refine congrArg (List.map _) (List.filter_congr fun listener _ => ?_)
    rw [Bool.eq_iff_iff, decide_eq_true_iff, stays_iff]
    simp [and_comm]

/-- The issues that report registrations which are never removed are those of the registrations that
stay. -/
theorem unremoved_reports_exact (audit : Audit) :
    (issues audit (Memory.ofFiles audit.root audit.files)).1.filter
        (fun issue => issue.typeName = "unremoved_event_listener") =
      if audit.options.rules.unRemovedEventListener then
        audit.files.flatMap fun file =>
          match file.ownScript? with
          | none => []
          | some facts => (facts.added.filter (Stays audit file facts)).map fun listener =>
              unremovedIssue ⟨file, listener, audit.origin file listener.location⟩
      else [] := by
  have hsound : Sound (projectOf audit) audit.files (Memory.ofFiles audit.root audit.files) :=
    sound_ofFiles (projectOf audit) audit.files
  rw [filter_issues_unremoved, unremoved_eq hsound, flatMap_candidates, List.filter_flatMap,
    List.map_flatMap]
  simp only [map_kept_candidates]

end Analysis.Listener
end AssetAudit
