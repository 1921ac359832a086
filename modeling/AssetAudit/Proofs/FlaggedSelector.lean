import AssetAudit.Proofs.RuleToggle

/-!
# Selectors that issues flag

Two types of issues flag a single selector: one that acts on the whole document, and one that reaches
elements by their kind. What they flag in a file is decided selector by selector (`selectorFlags`), but
only for rules that act outside their module (`flags_fileIssues`).
-/
namespace AssetAudit

/-- The type and the selector of an issue that flags a selector. -/
def IssueKind.flag? (kind : IssueKind) : Option (String × String) :=
  match kind with
  | .globalSelector selector => some (kind.typeName, selector)
  | .criticalGlobalStyle selector _ => some (kind.typeName, selector)
  | _ => none

/-- What the issues of a list flag, in their order. -/
def flagsOf (issues : List Issue) : List (String × String) := issues.filterMap (·.kind.flag?)

theorem flagsOf_append (a b : List Issue) : flagsOf (a ++ b) = flagsOf a ++ flagsOf b :=
  List.filterMap_append

theorem flagsOf_flatMap {α : Type} (items : List α) (find : α → List Issue) :
    flagsOf (items.flatMap find) = items.flatMap fun item => flagsOf (find item) :=
  List.filterMap_flatMap

theorem flagsOf_singleton (issue : Issue) : flagsOf [issue] = issue.kind.flag?.toList := by
  rw [flagsOf, List.filterMap_eq_flatMap_toList, List.flatMap_singleton]

theorem flagsOf_eq_nil {issues : List Issue} (h : ∀ issue ∈ issues, issue.kind.flag? = none) :
    flagsOf issues = [] :=
  List.filterMap_eq_nil_iff.2 h

/-- Without the exclusion of selectors below a class every selector is global. -/
theorem Style.Selector.isGlobal_false (selector : String) : isGlobal false selector = true := by
  simp [isGlobal]

namespace Analysis.Style

open AssetAudit.Style (Rule Declaration)

/-- What is flagged of a selector of a global rule with some declarations. -/
def selectorFlags (rules : Rules) (declarations : List Declaration) (selector : String) :
    List (String × String) :=
  (if rules.criticalGlobalStyle && (partsOf selector).any criticalParts.contains &&
        !(declarations.flatMap criticalNotes).isEmpty then
      [("critical_global_style", selector)]
    else []) ++
    if rules.globalSelector && (partsOf selector).any globalParts.contains &&
        countsAsGlobal rules.excludeGlobalSelectorAfterClass selector then
      [("global_selector", selector)]
    else []

theorem countsAsGlobal_of_mem_selectorFlags {rules : Rules} {declarations : List Declaration}
    {selector other : String} (h : ("global_selector", selector) ∈ selectorFlags rules declarations other) :
    countsAsGlobal rules.excludeGlobalSelectorAfterClass selector = true := by
  rcases List.mem_append.1 h with h | h
  · split at h
    · simp at h
    · cases h
  · split at h
    · rename_i hcounts
      rw [List.mem_singleton, Prod.mk.injEq] at h
      rw [h.2]
      exact (Bool.and_eq_true_iff.1 hcounts).2
    · cases h

section Emit

variable {rules : Rules} {emit : Emit}
  (hemit : ∀ kind severity message, (emit kind severity message).kind = kind)
include hemit

theorem flags_selector (rule : Rule) (selector : String) :
    flagsOf (criticalIssue rules emit rule selector ++ globalIssue rules emit selector) =
      selectorFlags rules rule.declarations selector := by
  rw [flagsOf_append, selectorFlags]
  congr 1
  · unfold criticalIssue criticalDeclarations
    cases rules.criticalGlobalStyle && (partsOf selector).any criticalParts.contains with
    | false => rfl
    | true =>
      simp only [if_true, Bool.true_and]
      cases (rule.declarations.flatMap criticalNotes).isEmpty with
      | true => rfl
      | false =>
        simp only [Bool.false_eq_true, if_false, Bool.not_false, if_true]
        rw [flagsOf_singleton, hemit]
        rfl
  · unfold globalIssue
    cases hpart : (partsOf selector).find? globalParts.contains with
    | none =>
      have hnone : (partsOf selector).any globalParts.contains = false := by
        simpa [List.find?_eq_none] using hpart
      rw [hnone, Bool.and_false, Bool.false_and]
      rfl
    | some part =>
      have hsome : (partsOf selector).any globalParts.contains = true :=
        List.any_eq_true.2 ⟨part, List.mem_of_find?_eq_some hpart, List.find?_some hpart⟩
      rw [hsome, Bool.and_true]
      simp only
      split
      · rw [flagsOf_singleton, hemit]
        rfl
      · rfl

theorem flags_globalRuleIssues (rule : Rule) :
    flagsOf (globalRuleIssues rules emit rule) =
      rule.selectors.flatMap (selectorFlags rules rule.declarations) := by
  have hdeclarations : ∀ declaration ∈ rule.declarations,
      flagsOf (sideEffectIssue rules emit rule.selectorText declaration ++
        globalImportantIssue rules emit rule.selectorText declaration) = [] := by
    intro declaration _
    refine flagsOf_eq_nil fun issue hissue => ?_
    rcases List.mem_append.1 hissue with hissue | hissue
    · unfold sideEffectIssue at hissue
      simp only at hissue
      split at hissue
      · rw [List.mem_singleton.1 hissue, hemit]
        rfl
      · cases hissue
    · unfold globalImportantIssue at hissue
      split at hissue
      · rw [List.mem_singleton.1 hissue, hemit]
        rfl
      · cases hissue
  rw [globalRuleIssues, flagsOf_append, flagsOf_flatMap, flagsOf_flatMap,
    List.flatMap_eq_nil_iff.2 hdeclarations, List.append_nil]
  exact List.flatMap_congr fun selector _ => flags_selector hemit rule selector

theorem flags_complexIssues (rule : Rule) : flagsOf (complexIssues rules emit rule) = [] := by
  refine flagsOf_eq_nil fun issue hissue => ?_
  unfold complexIssues at hissue
  split at hissue
  · obtain ⟨selector, -, hsome⟩ := List.mem_filterMap.1 hissue
    simp only [Option.ite_none_right_eq_some, Option.some.injEq] at hsome
    rw [← hsome.2, hemit]
    rfl
  · cases hissue

theorem flags_importantIssues (rule : Rule) : flagsOf (importantIssues rules emit rule) = [] := by
  refine flagsOf_eq_nil fun issue hissue => ?_
  unfold importantIssues at hissue
  split at hissue
  · obtain ⟨declaration, -, rfl⟩ := List.mem_map.1 hissue
    rw [hemit]
    rfl
  · cases hissue

theorem flags_duplicateIssue (rule : Rule) (seen : List String) :
    flagsOf (duplicateIssue rules emit rule seen) = [] := by
  refine flagsOf_eq_nil fun issue hissue => ?_
  unfold duplicateIssue at hissue
  split at hissue
  · rw [List.mem_singleton.1 hissue, hemit]
    rfl
  · cases hissue

end Emit

variable (audit : Audit) (file : SurveyedFile)

theorem flags_ruleIssues : ∀ (found : List Rule) (seen : List String),
    flagsOf (ruleIssues audit file seen found) = []
  | [], _ => rfl
  | rule :: found, seen => by
    unfold ruleIssues
    cases audit.reported? file rule.location with
    | none => exact flags_ruleIssues found seen
    | some origin =>
      have hemit := kind_issueAt file origin
      simp only [flagsOf_append, flags_complexIssues hemit, List.nil_append]
      split
      · exact flags_ruleIssues found seen
      · rw [flagsOf_append, flagsOf_append, flags_importantIssues hemit, flags_duplicateIssue hemit,
          flags_ruleIssues found]
        rfl

/-- What is flagged of a rule if it acts outside its module and where it is reported. -/
def ruleFlags (rule : Rule) : List (String × String) :=
  if (audit.reported? file rule.location).isSome then
    rule.selectors.flatMap (selectorFlags audit.options.rules rule.declarations)
  else []

/-- What the issues of a file flag are selectors of its global rules. -/
theorem flags_fileIssues : flagsOf (fileIssues audit file) =
    match file.style? with
    | none => []
    | some facts => (facts.globalRules.filter (!isModuleRule ·)).flatMap (ruleFlags audit file) := by
  unfold fileIssues
  cases file.style? with
  | none => rfl
  | some facts =>
    simp only [flagsOf_append, flags_ruleIssues, List.append_nil, flagsOf_flatMap]
    refine List.flatMap_congr fun rule _ => ?_
    unfold ruleFlags
    cases audit.reported? file rule.location with
    | none => rfl
    | some origin => exact flags_globalRuleIssues (kind_issueAt file origin) rule

end Analysis.Style
end AssetAudit
