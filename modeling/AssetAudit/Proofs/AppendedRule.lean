import AssetAudit.Proofs.UnremovedListener
import AssetAudit.Scan
import Mathlib.Data.List.Flatten

/-!
# Rules behind the others

A filter that gets more rules ignores all that it ignored before (`ignores_append`): whole files because
one rule is enough, and lines because the first line rule that designates a file stays the first.

A place that a stricter filter reports is reported without it as well, and comes from the same place
(`reported?_of_stricter`). So every analysis finds under the stricter filter a part of what it finds
without it, in the same order. Two of them look at more than one place. A rule of a style sheet counts
as repeated if an earlier one that is reported has its selectors, and a stricter filter leaves fewer of
these (`Style.ruleIssues_sublist`). Which registrations of listeners stay is decided by removals, and
those are never ignored (`Listener.issues_sublist`).
-/
namespace AssetAudit

/-! ## Filters -/

namespace IgnoreFilter

variable {filter : IgnoreFilter} {path : String}

theorem ignoresFile_append (rules : List IgnoreRule) (h : filter.ignoresFile path = true) :
    (filter.append rules).ignoresFile path = true := by
  unfold ignoresFile append at *
  rw [List.any_append, h, Bool.true_or]

theorem ignoresLine_append (rules : List IgnoreRule) {line : Nat}
    (h : filter.ignoresLine path line = true) :
    (filter.append rules).ignoresLine path line = true := by
  unfold ignoresLine at *
  cases hfirst : filter.ignoredLines? path with
  | none =>
    rw [hfirst] at h
    cases h
  | some lines =>
    have hlater : (filter.append rules).ignoredLines? path = some lines := by
      unfold ignoredLines? append at *
      rw [List.findSome?_append, hfirst, Option.some_or]
    rwa [hlater, ← hfirst]

/-- What is ignored stays ignored when rules are added behind the others. -/
theorem ignores_append (rules : List IgnoreRule) {asset : Asset} {line : Option Nat}
    {source : Option String} (h : filter.ignores asset line source = true) :
    (filter.append rules).ignores asset line source = true := by
  unfold ignores at *
  split
  · rename_i hpage
    rwa [if_pos hpage] at h
  · rename_i hpage
    rw [if_neg hpage] at h
    cases hknown : source.filter SourceMap.isKnown with
    | some known =>
      simp only [hknown, Bool.or_eq_true, Option.any_eq_true] at h ⊢
      rcases h with hfile | ⟨n, hn, hline⟩
      · exact Or.inl (ignoresFile_append rules hfile)
      · exact Or.inr ⟨n, hn, ignoresLine_append rules hline⟩
    | none =>
      simp only [hknown, Bool.or_eq_true, Option.any_eq_true, List.any_eq_true] at h ⊢
      rcases h with hfile | ⟨n, hn, hline | ⟨listed, hlisted, hline⟩⟩
      · exact Or.inl (ignoresFile_append rules hfile)
      · exact Or.inr ⟨n, hn, Or.inl (ignoresLine_append rules hline)⟩
      · exact Or.inr ⟨n, hn, Or.inr ⟨listed, hlisted, ignoresLine_append rules hline⟩⟩

end IgnoreFilter

/-! ## Audits under a stricter filter -/

/-- The audit under another filter. -/
def Audit.withFilter (audit : Audit) (filter : IgnoreFilter) : Audit := { audit with filter }

theorem Audit.options_withFilter (audit : Audit) (filter : IgnoreFilter) :
    (audit.withFilter filter).options = audit.options := rfl

/-- Whether a filter ignores all that another one does. -/
def IgnoreFilter.IsStricter (strict filter : IgnoreFilter) : Prop :=
  ∀ asset line source, filter.ignores asset line source = true →
    strict.ignores asset line source = true

/-- Where one function finds no more than another, it finds a part of the whole. -/
theorem filterMap_sublist {α β : Type} {f g : α → Option β} (items : List α)
    (h : ∀ item found, f item = some found → g item = some found) :
    (items.filterMap f).Sublist (items.filterMap g) := by
  rw [List.filterMap_eq_flatMap_toList, List.filterMap_eq_flatMap_toList]
  refine List.Sublist.flatMap_right items fun item _ => ?_
  cases hf : f item with
  | none => exact List.nil_sublist _
  | some found => rw [h item found hf]

section File

variable {audit : Audit} {strict : IgnoreFilter} (h : strict.IsStricter audit.filter)
  (file : SurveyedFile)
include h

theorem reported?_of_stricter {place : Location} {origin : SourceMap.Origin}
    (hreported : (audit.withFilter strict).reported? file place = some origin) :
    audit.reported? file place = some origin := by
  unfold Audit.reported? at *
  simp only [Option.ite_none_left_eq_some, Option.some.injEq] at hreported ⊢
  obtain ⟨hkept, horigin⟩ := hreported
  exact ⟨fun hignored => hkept (h _ _ _ hignored), horigin⟩

/-- What is made of a place that the stricter filter reports is made of it without it as well. -/
theorem map_reported?_of_stricter {α : Type} {make : SourceMap.Origin → α} {place : Location}
    {found : α} (hfound : ((audit.withFilter strict).reported? file place).map make = some found) :
    (audit.reported? file place).map make = some found := by
  obtain ⟨origin, horigin, rfl⟩ := Option.map_eq_some_iff.1 hfound
  exact Option.map_eq_some_iff.2 ⟨origin, reported?_of_stricter h file horigin, rfl⟩

namespace Analysis

/-! ## Style sheets -/

omit h in
theorem Style.duplicateIssue_sublist (rules : Rules) (emit : Style.Emit)
    (rule : AssetAudit.Style.Rule) {seen more : List String} (hseen : seen ⊆ more) :
    (Style.duplicateIssue rules emit rule seen).Sublist
      (Style.duplicateIssue rules emit rule more) := by
  unfold Style.duplicateIssue
  split
  · rename_i hdouble
    rw [Bool.and_eq_true, List.contains_iff_mem] at hdouble
    rw [if_pos (by rw [Bool.and_eq_true, List.contains_iff_mem]; exact ⟨hdouble.1, hseen hdouble.2⟩)]
  · exact List.nil_sublist _

/-- A rule that is ignored neither counts as repeated nor makes a later one count as repeated. -/
theorem Style.ruleIssues_sublist : ∀ (rules : List AssetAudit.Style.Rule) {seen more : List String},
    seen ⊆ more →
    (Style.ruleIssues (audit.withFilter strict) file seen rules).Sublist
      (Style.ruleIssues audit file more rules)
  | [], _, _, _ => List.Sublist.refl _
  | rule :: rules, seen, more, hseen => by
    unfold Style.ruleIssues
    cases hstrict : (audit.withFilter strict).reported? file rule.location with
    | none =>
      simp only
      split
      · exact Style.ruleIssues_sublist rules hseen
      · refine List.Sublist.trans ?_ (List.sublist_append_right _ _)
        split
        · exact Style.ruleIssues_sublist rules hseen
        · refine List.Sublist.trans ?_ (List.sublist_append_right _ _)
          exact Style.ruleIssues_sublist rules (List.subset_cons_of_subset _ hseen)
    | some origin =>
      rw [reported?_of_stricter h file hstrict]
      refine List.Sublist.append (List.Sublist.refl _) ?_
      split
      · exact Style.ruleIssues_sublist rules hseen
      · refine List.Sublist.append (List.Sublist.append (List.Sublist.refl _) ?_) ?_
        · exact Style.duplicateIssue_sublist _ _ rule hseen
        · exact Style.ruleIssues_sublist rules (List.cons_subset_cons _ hseen)

theorem Style.fileIssues_sublist :
    (Style.fileIssues (audit.withFilter strict) file).Sublist (Style.fileIssues audit file) := by
  unfold Style.fileIssues
  cases file.style? with
  | none => exact List.Sublist.refl _
  | some facts =>
    refine List.Sublist.append (List.Sublist.flatMap_right _ fun rule _ => ?_) ?_
    · cases hstrict : (audit.withFilter strict).reported? file rule.location with
      | none => exact List.nil_sublist _
      | some origin =>
        rw [reported?_of_stricter h file hstrict]
        exact List.Sublist.refl _
    · exact Style.ruleIssues_sublist h file _ (List.Subset.refl _)

/-! ## Globals and elements -/

theorem Global.issueFor?_of_stricter {global : Script.GlobalVariable} {kind : IssueKind}
    {severity : Severity} {message : String} {issue : Issue}
    (hissue : Global.issueFor? (audit.withFilter strict) file global kind severity message =
      some issue) :
    Global.issueFor? audit file global kind severity message = some issue :=
  map_reported?_of_stricter h file hissue

theorem Global.fileIssues_sublist :
    (Global.fileIssues (audit.withFilter strict) file).Sublist (Global.fileIssues audit file) := by
  unfold Global.fileIssues
  cases file.script? with
  | none => exact List.Sublist.refl _
  | some facts =>
    refine List.Sublist.append (filterMap_sublist _ ?_) (filterMap_sublist _ ?_)
    · intro global issue hissue
      unfold Global.declaration? at *
      rw [Option.ite_none_right_eq_some] at *
      exact ⟨hissue.1, Global.issueFor?_of_stricter h file hissue.2⟩
    · intro global issue hissue
      unfold Global.override? at *
      rw [Option.ite_none_right_eq_some] at *
      exact ⟨hissue.1, Global.issueFor?_of_stricter h file hissue.2⟩

theorem Element.issueFor?_of_stricter {operation : Script.ElementOperation} {kind : IssueKind}
    {message : String} {issue : Issue}
    (hissue : Element.issueFor? (audit.withFilter strict) file operation kind message = some issue) :
    Element.issueFor? audit file operation kind message = some issue :=
  map_reported?_of_stricter h file hissue

theorem Element.operations_sublist (on : Bool) (operations : List Script.ElementOperation) :
    (Element.operations (audit.withFilter strict) file on operations).Sublist
      (Element.operations audit file on operations) := by
  unfold Element.operations
  split
  · refine filterMap_sublist _ fun operation issue hissue => ?_
    unfold Element.operation? at *
    cases hmethod : operation.method <;> simp only [hmethod] at hissue ⊢ <;>
      exact Element.issueFor?_of_stricter h file hissue
  · exact List.Sublist.refl _

theorem Element.fileIssues_sublist :
    (Element.fileIssues (audit.withFilter strict) file).Sublist (Element.fileIssues audit file) := by
  unfold Element.fileIssues
  cases file.script? with
  | none => exact List.Sublist.refl _
  | some facts =>
    have hcreated : (facts.created.filterMap
        (Element.untracked? (audit.withFilter strict) file facts)).Sublist
        (facts.created.filterMap (Element.untracked? audit file facts)) := by
      refine filterMap_sublist _ fun created issue hissue => ?_
      unfold Element.untracked? at *
      rw [Option.ite_none_right_eq_some] at *
      exact ⟨hissue.1, Element.issueFor?_of_stricter h file hissue.2⟩
    have hmoved := Element.operations_sublist h file
    exact ((hcreated.append (hmoved _ _)).append (hmoved _ _)).append (hmoved _ _)

/-! ## Listeners -/

theorem Listener.anonymousIssues_sublist :
    (Listener.anonymousIssues (audit.withFilter strict) file).Sublist
      (Listener.anonymousIssues audit file) := by
  unfold Listener.anonymousIssues
  cases file.script? with
  | none => exact List.Sublist.refl _
  | some facts =>
    rw [Audit.options_withFilter]
    dsimp only
    split
    · exact filterMap_sublist _ fun listener issue => map_reported?_of_stricter h file
    · exact List.Sublist.refl _

theorem Listener.candidates_sublist :
    (Listener.candidates (audit.withFilter strict) file).Sublist (Listener.candidates audit file) := by
  unfold Listener.candidates
  cases file.ownScript? with
  | none => exact List.Sublist.refl _
  | some facts =>
    exact filterMap_sublist _ fun listener candidate => map_reported?_of_stricter h file

end Analysis
end File

namespace Analysis.Listener

/-- Removals and declarations are looked up whatever the rules say, so they keep the same
registrations. -/
theorem isKept_withFilter (audit : Audit) (strict : IgnoreFilter) (listener : Script.Listener)
    (origin : SourceMap.Origin) :
    IsKept (audit.withFilter strict) listener origin ↔ IsKept audit listener origin := Iff.rfl

theorem issues_sublist {audit : Audit} {strict : IgnoreFilter}
    (h : strict.IsStricter audit.filter) :
    (issues (audit.withFilter strict) (.ofFiles audit.root audit.files)).1.Sublist
      (issues audit (.ofFiles audit.root audit.files)).1 := by
  have hsound : Sound (projectOf audit) audit.files (.ofFiles audit.root audit.files) :=
    sound_ofFiles (projectOf audit) audit.files
  have hstrict : Sound (projectOf (audit.withFilter strict)) (audit.withFilter strict).files
      (.ofFiles audit.root audit.files) := hsound
  rw [fst_issues, fst_issues, unremoved_eq hsound, unremoved_eq hstrict, Audit.options_withFilter]
  refine List.Sublist.append (List.Sublist.flatMap_right _ fun file _ => ?_) ?_
  · exact (anonymousIssues_sublist h file).append (List.Sublist.refl _)
  · split
    · simp only [isKept_withFilter]
      refine List.Sublist.map _ (List.Sublist.filter _ ?_)
      exact List.Sublist.flatMap_right _ fun file _ => candidates_sublist h file
    · exact List.Sublist.refl _

end Analysis.Listener

/-! ## All analyses -/

open Analysis in
theorem analyse_sublist {audit : Audit} {strict : IgnoreFilter}
    (h : strict.IsStricter audit.filter) (category : Category) :
    ((Scan.analyse (audit.withFilter strict) (.ofFiles audit.root audit.files)).1.get
        category).Sublist
      ((Scan.analyse audit (.ofFiles audit.root audit.files)).1.get category) := by
  cases category with
  | styles => exact List.Sublist.flatMap_right _ fun file _ => Style.fileIssues_sublist h file
  | globals => exact List.Sublist.flatMap_right _ fun file _ => Global.fileIssues_sublist h file
  | listeners => exact Listener.issues_sublist h
  | elements => exact List.Sublist.flatMap_right _ fun file _ => Element.fileIssues_sublist h file

/-- Rules that are added behind the others only take issues away: what each analysis finds with them is
what it finds without them, in the same order and with some left out. What was ignored stays so. -/
theorem appended_rules_only_remove (disk : Disk) (root : String) (options : Options)
    (files : List SurveyedFile) (filter : IgnoreFilter) (rules : List IgnoreRule) :
    let found (filter : IgnoreFilter) : Results :=
      (Scan.analyse ⟨disk, root, options, filter, files⟩ (.ofFiles root files)).1
    (∀ category, ((found (filter.append rules)).get category).Sublist
      ((found filter).get category)) ∧
    ∀ asset line source, filter.ignores asset line source = true →
      (filter.append rules).ignores asset line source = true := by
  intro found
  have hstrict : (filter.append rules).IsStricter filter := fun _ _ _ => IgnoreFilter.ignores_append rules
  refine ⟨fun category => ?_, hstrict⟩
  exact analyse_sublist (show (filter.append rules).IsStricter
    (Audit.mk disk root options filter files).filter from hstrict) category

end AssetAudit
