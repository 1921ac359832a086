import AssetAudit.Proofs.IgnoredIssue
import AssetAudit.Proofs.LineRule
import AssetAudit.Proofs.UnremovedListener

/-!
# The order of assets

Assets come in no particular order, and a scan of them in another order finds the same issues in
another order (`scan_order_irrelevant`).

What is found in one file depends on the filter through its answers only, so audits that are `Alike`
find the same in a file (`Style.fileIssues_alike` and the like). The rules that comments add come in
the order of the assets, but assets that stand apart give filters that answer alike
(`alike_auditOf`). Listeners are compared over all files: the facts at a path do not depend on the
order (`surveyedFacts?_perm`), so neither do the keys of declarations, nor which registrations stay
(`isKept_perm`).
-/
namespace AssetAudit

/-! ## Filters and audits that answer alike -/

/-- Whether two filters give the same answers. -/
structure IgnoreFilter.Alike (f g : IgnoreFilter) : Prop where
  file : ∀ path, f.ignoresFile path = g.ignoresFile path
  lines : ∀ path, f.ignoredLines? path = g.ignoredLines? path

theorem IgnoreFilter.Alike.ignores_eq {f g : IgnoreFilter} (h : f.Alike g) :
    f.ignores = g.ignores := by
  have hfile : f.ignoresFile = g.ignoresFile := funext h.file
  have hline : f.ignoresLine = g.ignoresLine := by
    funext path line
    simp only [IgnoreFilter.ignoresLine, h.lines]
  funext asset line source
  simp only [IgnoreFilter.ignores, hfile, hline]

/-- Whether two audits differ at most in their files and in how the rules are written. -/
structure Audit.Alike (a b : Audit) : Prop where
  disk : a.disk = b.disk
  root : a.root = b.root
  options : a.options = b.options
  filter : a.filter.Alike b.filter

section File

variable {a b : Audit} (h : a.Alike b)
include h

theorem Audit.Alike.origin_eq : a.origin = b.origin := by
  funext file place
  simp only [Audit.origin, h.disk, h.options, h.root]

theorem Audit.Alike.reported?_eq : a.reported? = b.reported? := by
  funext file place
  simp only [Audit.reported?, h.origin_eq, h.filter.ignores_eq]

namespace Analysis

theorem Style.ruleIssues_alike (file : SurveyedFile) :
    ∀ (rules : List AssetAudit.Style.Rule) (seen : List String),
    Style.ruleIssues a file seen rules = Style.ruleIssues b file seen rules
  | [], _ => rfl
  | rule :: rules, seen => by
    unfold Style.ruleIssues
    simp only [h.reported?_eq, h.options, Style.ruleIssues_alike file rules]

theorem Style.fileIssues_alike : Style.fileIssues a = Style.fileIssues b := by
  funext file
  simp only [Style.fileIssues, h.reported?_eq, h.options, Style.ruleIssues_alike h]

theorem Global.fileIssues_alike : Global.fileIssues a = Global.fileIssues b := by
  have hissue : Global.issueFor? a = Global.issueFor? b := by
    funext file global kind severity message
    simp only [Global.issueFor?, h.reported?_eq]
  have hdeclaration : Global.declaration? a = Global.declaration? b := by
    funext file global
    simp only [Global.declaration?, h.options, hissue]
  have hoverride : Global.override? a = Global.override? b := by
    funext file global
    simp only [Global.override?, h.options, hissue]
  funext file
  simp only [Global.fileIssues, hdeclaration, hoverride]

theorem Element.fileIssues_alike : Element.fileIssues a = Element.fileIssues b := by
  have hissue : Element.issueFor? a = Element.issueFor? b := by
    funext file operation kind message
    simp only [Element.issueFor?, h.reported?_eq]
  have huntracked : Element.untracked? a = Element.untracked? b := by
    funext file facts created
    simp only [Element.untracked?, h.options, hissue]
  have hoperation : Element.operation? a = Element.operation? b := by
    funext file operation
    simp only [Element.operation?, hissue]
  have hoperations : Element.operations a = Element.operations b := by
    funext file on found
    simp only [Element.operations, hoperation]
  funext file
  simp only [Element.fileIssues, h.options, huntracked, hoperations]

theorem Listener.anonymousIssues_alike : Listener.anonymousIssues a = Listener.anonymousIssues b := by
  funext file
  simp only [Listener.anonymousIssues, h.options, h.reported?_eq]

theorem Listener.inlineIssues_alike : Listener.inlineIssues a = Listener.inlineIssues b := by
  funext file
  simp only [Listener.inlineIssues, h.options, h.origin_eq]

theorem Listener.candidates_alike : Listener.candidates a = Listener.candidates b := by
  funext file
  simp only [Listener.candidates, h.reported?_eq]

end Analysis
end File

/-! ## Surveys in another order -/

/-- All assets, in the order in which they are surveyed. -/
def AssetMap.all (assets : AssetMap) : List Asset := assets.styles ++ assets.scripts ++ assets.pages

/-- The same rules in another order, with the same first hit for every path, give the same answers. -/
theorem IgnoreFilter.alike_append {filter : IgnoreFilter} {rules others : List IgnoreRule}
    (hperm : rules.Perm others)
    (hlines : ∀ path, rules.findSome? (·.linesOf? filter.root path) =
      others.findSome? (·.linesOf? filter.root path)) :
    (filter.append rules).Alike (filter.append others) where
  file path := by
    simp only [IgnoreFilter.ignoresFile, IgnoreFilter.append, List.any_append, hperm.any_eq]
  lines path := by
    simp only [IgnoreFilter.ignoredLines?, IgnoreFilter.append, List.findSome?_append, hlines]

theorem alike_auditOf (disk : Disk) (root : String) (options : Options) {assets others : AssetMap}
    (hapart : StandApart root assets.all) (hperm : assets.all.Perm others.all) :
    let filter := IgnoreFilter.ofEntries root options.ignored
    (Scan.auditOf disk root options filter (Survey.ofAssets options filter assets)).Alike
      (Scan.auditOf disk root options filter (Survey.ofAssets options filter others)) :=
  ⟨rfl, rfl, rfl, IgnoreFilter.alike_append (hperm.filterMap _)
    (findSome?_lineRules_perm hapart hperm)⟩

theorem inOrder_perm {a b : Audit} (hperm : a.files.Perm b.files) (isOwn : SurveyedFile → Bool) :
    (a.inOrder isOwn).Perm (b.inOrder isOwn) :=
  (hperm.filter _).append (hperm.filter _)

theorem flatMap_inOrder_perm {a b : Audit} (hperm : a.files.Perm b.files)
    (isOwn : SurveyedFile → Bool) {find find' : SurveyedFile → List Issue} (h : find = find') :
    ((a.inOrder isOwn).flatMap find).Perm ((b.inOrder isOwn).flatMap find') := by
  rw [h]
  exact (inOrder_perm hperm isOwn).flatMap_right find'

namespace Analysis

theorem surveyedFacts?_perm {root : String} {files others : List SurveyedFile}
    (hperm : files.Perm others)
    (hapart : ∀ file ∈ files, ∀ other ∈ files, Path.normalize (Path.join root file.path) =
      Path.normalize (Path.join root other.path) → file = other) (path : String) :
    surveyedFacts? root files path = surveyedFacts? root others path := by
  refine findSome?_perm ((List.reverse_perm files).trans (hperm.trans (List.reverse_perm others).symm)) ?_
  intro file hfile other hother facts facts' hfacts hfacts'
  simp only [Option.ite_none_right_eq_some] at hfacts hfacts'
  have hsame : file = other := hapart file (List.mem_reverse.1 hfile) other (List.mem_reverse.1 hother)
    (hfacts.1.trans hfacts'.1.symm)
  have hscript := hfacts.2
  rw [hsame, hfacts'.2, Option.some.injEq] at hscript
  exact hscript.symm

namespace Listener

variable {a b : Audit} (h : a.Alike b) (hperm : a.files.Perm b.files)
  (hfacts : ∀ path, surveyedFacts? a.root a.files path = surveyedFacts? b.root b.files path)

include h hfacts in
theorem keyOf?_perm : keyOf? a = keyOf? b := by
  have hproject : projectOf a = projectOf b := by
    simp only [projectOf, h.disk, h.root, h.options]
  have hof : factsOf? (projectOf b) a.files = factsOf? (projectOf b) b.files := by
    funext path
    have hpath : surveyedFacts? b.root a.files path = surveyedFacts? b.root b.files path := by
      rw [← hfacts path, h.root]
    simp only [factsOf?, projectOf, hpath]
  funext listener origin
  simp only [keyOf?, definitionOf?, declaredIn?, hproject, hof, h.root]

include h hperm hfacts in
theorem isKept_perm (listener : Script.Listener) (origin : SourceMap.Origin) :
    IsKept a listener origin ↔ IsKept b listener origin := by
  unfold IsKept
  rw [keyOf?_perm h hfacts, h.origin_eq]
  simp only [hperm.mem_iff]

include h hperm hfacts in
theorem issues_perm :
    (issues a (.ofFiles a.root a.files)).1.Perm (issues b (.ofFiles b.root b.files)).1 := by
  have hfiles : a.scriptsAndPages.Perm b.scriptsAndPages := inOrder_perm hperm _
  have hcandidates : (a.scriptsAndPages.flatMap (candidates a)).Perm
      (b.scriptsAndPages.flatMap (candidates b)) := by
    rw [candidates_alike h]
    exact hfiles.flatMap_right _
  -- What is remembered is right in both, so which listeners stay is decided by their keys alone.
  have hsound : ∀ audit : Audit, Sound (projectOf audit) audit.files (.ofFiles audit.root audit.files) :=
    fun audit => sound_ofFiles (projectOf audit) audit.files
  rw [fst_issues, fst_issues, unremoved_eq (hsound a), unremoved_eq (hsound b),
    anonymousIssues_alike h, inlineIssues_alike h, h.options]
  refine (hfiles.flatMap_right _).append ?_
  split
  · simp only [isKept_perm h hperm hfacts]
    exact (hcandidates.filter _).map _
  · exact .refl _

end Listener
end Analysis

/-! ## Scans -/

open Analysis in
theorem analyse_perm {a b : Audit} (h : a.Alike b) (hperm : a.files.Perm b.files)
    (hfacts : ∀ path, surveyedFacts? a.root a.files path = surveyedFacts? b.root b.files path)
    (category : Category) :
    ((Scan.analyse a (.ofFiles a.root a.files)).1.get category).Perm
      ((Scan.analyse b (.ofFiles b.root b.files)).1.get category) := by
  cases category with
  | styles => exact flatMap_inOrder_perm hperm _ (Style.fileIssues_alike h)
  | globals => exact flatMap_inOrder_perm hperm _ (Global.fileIssues_alike h)
  | listeners => exact Listener.issues_perm h hperm hfacts
  | elements => exact flatMap_inOrder_perm hperm _ (Element.fileIssues_alike h)

theorem resultsOf_perm (disk : Disk) (root : String) (options : Options) {assets others : AssetMap}
    (hapart : StandApart root assets.all) (hperm : assets.all.Perm others.all) (category : Category) :
    let filter := IgnoreFilter.ofEntries root options.ignored
    let results (assets : AssetMap) :=
      Scan.resultsOf disk root options filter (Survey.ofAssets options filter assets)
    ((results assets).get category).Perm ((results others).get category) := by
  intro filter results
  have hfiles : (Survey.ofAssets options filter assets).files.Perm
      (Survey.ofAssets options filter others).files := hperm.map _
  refine analyse_perm (alike_auditOf disk root options hapart hperm) hfiles ?_ category
  refine Analysis.surveyedFacts?_perm hfiles ?_
  -- A surveyed file is made of its asset, so files at one place are of one asset and the same.
  intro file hfile other hother hplace
  obtain ⟨a, ha, rfl⟩ := List.mem_map.1 hfile
  obtain ⟨b, hb, rfl⟩ := List.mem_map.1 hother
  simp only [SurveyedFile.path, Survey.asset_surveyFile] at hplace
  rw [hapart.apart a ha b hb hplace]

theorem counts_eq_of_perm {results others : Results}
    (h : ∀ category, (results.get category).Perm (others.get category)) :
    results.counts = others.counts := by
  have hstyles : results.styles.length = others.styles.length := (h .styles).length_eq
  have hglobals : results.globals.length = others.globals.length := (h .globals).length_eq
  have hlisteners : results.listeners.length = others.listeners.length := (h .listeners).length_eq
  have helements : results.elements.length = others.elements.length := (h .elements).length_eq
  simp only [Results.counts, Results.total, hstyles, hglobals, hlisteners, helements]

theorem ofResults_perm {results others : Results}
    (h : ∀ category, (results.get category).Perm (others.get category)) (options : Options)
    (root : String) (totalFiles : Nat) (scannedAt scannedAt' : String) :
    let report := Report.ofResults options root totalFiles scannedAt results
    let report' := Report.ofResults options root totalFiles scannedAt' others
    (∀ category, (report.results.get category).Perm (report'.results.get category)) ∧
      report.summary.issues = report'.summary.issues ∧
      report.summary.totalFiles = report'.summary.totalFiles :=
  ⟨h, counts_eq_of_perm h, rfl⟩

/-- Assets in another order fail with the same error, or give reports with the same issues in another
order and the same counts. -/
theorem scan_order_irrelevant (disk : Disk) (root : String) (options : Options)
    (scannedAt scannedAt' : String) {assets others : AssetMap}
    (hscripts : assets.scripts.Perm others.scripts) (hstyles : assets.styles.Perm others.styles)
    (hpages : assets.pages.Perm others.pages)
    (hliteral : ∀ asset ∈ assets.all, '*' ∉ asset.name.toList ∧ '?' ∉ asset.name.toList)
    (hapart : ∀ a ∈ assets.all, ∀ b ∈ assets.all,
      Path.normalize (Path.join root a.name) = Path.normalize (Path.join root b.name) → a = b) :
    (∃ error, Scan.ofAssets disk root options scannedAt assets = .error error ∧
      Scan.ofAssets disk root options scannedAt' others = .error error) ∨
    ∃ report report', Scan.ofAssets disk root options scannedAt assets = .ok report ∧
      Scan.ofAssets disk root options scannedAt' others = .ok report' ∧
      (∀ category, (report.results.get category).Perm (report'.results.get category)) ∧
      report.summary.issues = report'.summary.issues ∧
      report.summary.totalFiles = report'.summary.totalFiles := by
  have hperm : assets.all.Perm others.all := (hstyles.append hscripts).append hpages
  have hresults := resultsOf_perm disk root options ⟨hliteral, hapart⟩ hperm
  have hcount : (Survey.ofAssets options (.ofEntries root options.ignored) assets).parsedCount =
      (Survey.ofAssets options (.ofEntries root options.ignored) others).parsedCount :=
    (hperm.map _).countP_eq _
  unfold Scan.ofAssets
  simp only [hcount]
  split
  · exact Or.inl ⟨_, rfl, rfl⟩
  · exact Or.inr ⟨_, _, rfl, rfl, ofResults_perm hresults options root _ scannedAt scannedAt'⟩

theorem swapped_scripts_scan_alike :
    let first : Asset :=
      ⟨"a.js", "import \x7b f \x7d from './b';\naddEventListener('click', f);", none⟩
    let second : Asset :=
      ⟨"b.js", "window.a = 1; // side-effect-scanner-disable-line\n" ++
        "export function f() \x7b\x7d\nremoveEventListener('click', f);", none⟩
    let assets : AssetMap := ⟨[first, second], [], []⟩
    let others : AssetMap := ⟨[second, first], [], []⟩
    let scan := Scan.ofAssets (.atDirectory "/app") "/app" {} ""
    (∃ error, scan assets = .error error ∧ scan others = .error error) ∨
      ∃ report report', scan assets = .ok report ∧ scan others = .ok report' ∧
        (∀ category, (report.results.get category).Perm (report'.results.get category)) ∧
        report.summary.issues = report'.summary.issues ∧
        report.summary.totalFiles = report'.summary.totalFiles :=
  scan_order_irrelevant (.atDirectory "/app") "/app" {} "" "" (.swap _ _ _) (.refl _) (.refl _)
    (by decide +kernel) (by decide +kernel)

end AssetAudit
