import AssetAudit.Proofs.FlaggedSelector
import Mathlib.Data.List.Flatten

/-!
# Leaving out selectors below a class

The exclusion of selectors below a class counts twice: when the facts of a sheet are drawn, where it decides
which rules act outside their module, and when such a rule is looked at. Facts under one policy are those
under another with the global rules chosen anew (`Style.extract_under`), and so is the whole audit
(`Audit.under`). All that is not a style is found alike under both policies, and of the styles the stricter
policy finds a part (`Style.fileIssues_under_sublist`).
-/
namespace AssetAudit

theorem Text.head?_runsFrom (gap : Char → Bool) : ∀ (text run : List Char),
    run.reverse ++ text.takeWhile (!gap ·) ≠ [] →
    (Text.runsFrom gap run text).head? = some (run.reverse ++ text.takeWhile (!gap ·))
  | [], run, h => by
    have hrun : run ≠ [] := by simpa using h
    rw [Text.runsFrom, if_neg (by simpa using hrun), List.takeWhile_nil, List.append_nil, List.head?_cons]
  | c :: text, run, h => by
    rw [Text.runsFrom]
    cases hgap : gap c with
    | true =>
      rw [List.takeWhile_cons_of_neg (by simp [hgap]), List.append_nil] at h ⊢
      rw [if_pos rfl, if_neg (by simpa using h), List.head?_cons]
    | false =>
      rw [List.takeWhile_cons_of_pos (by simp [hgap])] at h ⊢
      rw [if_neg Bool.false_ne_true, Text.head?_runsFrom gap text (c :: run) (by simp), List.reverse_cons,
        List.append_assoc, List.singleton_append]

/-! ## Style facts under another policy -/

namespace Style

/-- The facts under a policy, with the global rules chosen anew. -/
def Facts.under (exclude : Bool) (facts : Facts) : Facts :=
  { facts with globalRules := facts.rules.filter fun rule => Selector.anyGlobal exclude rule.selectors }

theorem Facts.merge_under (exclude : Bool) (a b : Facts) :
    (a.merge b).under exclude = (a.under exclude).merge (b.under exclude) := by
  simp only [Facts.under, Facts.merge, List.filter_append]

theorem ruleFacts_under (text : List Char) (exclude other : Bool) (media : Option String) (span : Span)
    (selectors : List String) (block : List Item) :
    (ruleFacts ⟨text, other⟩ media span selectors block).under exclude =
      ruleFacts ⟨text, exclude⟩ media span selectors block := by
  unfold ruleFacts
  split
  · rfl
  · simp only [Facts.under, List.filter_singleton, Bool.cond_eq_ite]

mutual

theorem itemFacts_under (text : List Char) (exclude other : Bool) (media : Option String) : ∀ item : Item,
    (itemFacts ⟨text, other⟩ media item).under exclude = itemFacts ⟨text, exclude⟩ media item
  | .rule span selectors block => by
    rw [itemFacts, Facts.merge_under, ruleFacts_under, itemsFacts_under, itemFacts]
  | .declaration _ => rfl
  | .media span query block => by
    rw [itemFacts, itemFacts, ← itemsFacts_under text exclude other]
    rfl
  | .importing _ _ => rfl
  | .keyframes _ _ => rfl
  | .group block => by rw [itemFacts, itemsFacts_under, itemFacts]

theorem itemsFacts_under (text : List Char) (exclude other : Bool) (media : Option String) :
    ∀ items : List Item,
      (itemsFacts ⟨text, other⟩ media items).under exclude = itemsFacts ⟨text, exclude⟩ media items
  | [] => rfl
  | item :: rest => by
    rw [itemsFacts, Facts.merge_under, itemFacts_under, itemsFacts_under, itemsFacts]

end

theorem extract_under (exclude other : Bool) (code : String) :
    (extract other code).under exclude = extract exclude code :=
  itemsFacts_under code.toList exclude other none (readSheet code.toList)

end Style

namespace Page

/-- The facts of a page under a policy for its styles. -/
def Facts.under (exclude : Bool) (facts : Facts) : Facts :=
  { facts with style := facts.style.under exclude }

theorem sheetFacts_under (exclude other : Bool) (sheet : StyleSheet) :
    (sheetFacts other sheet).under exclude = sheetFacts exclude sheet := by
  unfold sheetFacts
  split
  · rfl
  · exact Style.extract_under exclude other sheet.content

theorem foldl_under (exclude other : Bool) : ∀ (sheets : List StyleSheet) (start : Style.Facts),
    ((sheets.map (sheetFacts other)).foldl Style.Facts.merge start).under exclude =
      (sheets.map (sheetFacts exclude)).foldl Style.Facts.merge (start.under exclude)
  | [], _ => rfl
  | sheet :: sheets, start => by
    rw [List.map_cons, List.foldl_cons, foldl_under exclude other sheets, Style.Facts.merge_under,
      sheetFacts_under, List.map_cons, List.foldl_cons]

theorem extract_under (ignoredGlobals : List String) (exclude other : Bool) (code : String) :
    (extract ignoredGlobals other code).under exclude = extract ignoredGlobals exclude code := by
  simp only [extract, Facts.under, foldl_under]
  rfl

end Page

/-! ## Surveys under another policy -/

def Findings.under (exclude : Bool) : Findings → Findings
  | .style facts => .style (facts.under exclude)
  | .page facts => .page (facts.under exclude)
  | other => other

namespace SurveyedFile

def under (exclude : Bool) (file : SurveyedFile) : SurveyedFile :=
  { file with findings := file.findings.under exclude }

variable (exclude : Bool) (file : SurveyedFile)

@[simp]
theorem asset_under : (file.under exclude).asset = file.asset := rfl

@[simp]
theorem path_under : (file.under exclude).path = file.path := rfl

@[simp]
theorem isPage_under : (file.under exclude).isPage = file.isPage := by
  obtain ⟨_, _ | _ | _ | _ | _ | _⟩ := file <;> rfl

@[simp]
theorem isScript_under : (file.under exclude).isScript = file.isScript := by
  obtain ⟨_, _ | _ | _ | _ | _ | _⟩ := file <;> rfl

@[simp]
theorem isStyle_under : (file.under exclude).isStyle = file.isStyle := by
  obtain ⟨_, _ | _ | _ | _ | _ | _⟩ := file <;> rfl

@[simp]
theorem isParsed_under : (file.under exclude).findings.isParsed = file.findings.isParsed := by
  obtain ⟨_, _ | _ | _ | _ | _ | _⟩ := file <;> rfl

@[simp]
theorem script?_under : (file.under exclude).script? = file.script? := by
  obtain ⟨_, _ | _ | _ | _ | _ | _⟩ := file <;> rfl

@[simp]
theorem ownScript?_under : (file.under exclude).ownScript? = file.ownScript? := by
  obtain ⟨_, _ | _ | _ | _ | _ | _⟩ := file <;> rfl

@[simp]
theorem style?_under : (file.under exclude).style? = file.style?.map (·.under exclude) := by
  obtain ⟨_, _ | _ | _ | _ | _ | _⟩ := file <;> rfl

@[simp]
theorem page?_under : (file.under exclude).page? = file.page?.map (·.under exclude) := by
  obtain ⟨_, _ | _ | _ | _ | _ | _⟩ := file <;> rfl

/-- A script has no styles that a policy could change. -/
theorem under_of_ownScript? {facts : Script.Facts} (h : file.ownScript? = some facts) :
    file.under exclude = file := by
  obtain ⟨_, _ | _ | _ | _ | _ | _⟩ := file <;> first | rfl | cases h

end SurveyedFile

/-- The options with the exclusion on or off. -/
def Options.under (exclude : Bool) (options : Options) : Options :=
  { options with rules := options.rules.set .excludeGlobalSelectorAfterClass exclude }

theorem Survey.examine_under (exclude : Bool) (options : Options) (asset : Asset) :
    examine (options.under exclude) asset = (examine options asset).under exclude := by
  have hrules : (options.under exclude).rules.excludeGlobalSelectorAfterClass = exclude := rfl
  have hglobals : (options.under exclude).ignoredGlobals = options.ignoredGlobals := rfl
  unfold examine
  simp only [hrules, hglobals]
  split
  · rw [Findings.under, Page.extract_under]
  · split
    · rw [Findings.under, Style.extract_under]
    · split
      · rfl
      · split <;> rfl

theorem Survey.ofAssets_under (exclude : Bool) (options : Options) (filter : IgnoreFilter)
    (assets : AssetMap) :
    let survey := ofAssets options filter assets
    ofAssets (options.under exclude) filter assets = ⟨survey.files.map (·.under exclude), survey.rules⟩ := by
  have hfile : ∀ asset, surveyFile (options.under exclude) filter asset =
      (surveyFile options filter asset).under exclude := by
    intro asset
    unfold surveyFile
    split
    · rfl
    · rw [examine_under]
      rfl
  simp only [ofAssets, List.map_map]
  refine congrArg (Survey.mk · _) (List.map_congr_left ?_)
  exact fun asset _ => hfile asset

theorem Survey.parsedCount_under (exclude : Bool) (survey : Survey) :
    (Survey.mk (survey.files.map (·.under exclude)) survey.rules).parsedCount = survey.parsedCount := by
  simp only [parsedCount, List.countP_map]
  exact List.countP_congr fun file _ => by simp

/-- The audit with the exclusion on or off. -/
def Audit.under (exclude : Bool) (audit : Audit) : Audit :=
  { audit with options := audit.options.under exclude, files := audit.files.map (·.under exclude) }

section Audit

variable (exclude : Bool) (audit : Audit) (file : SurveyedFile)

@[simp]
theorem Audit.origin_under (place : Location) :
    (audit.under exclude).origin (file.under exclude) place = audit.origin file place := by
  simp only [Audit.origin, SourceMap.locate, SurveyedFile.asset_under]
  split <;> rfl

@[simp]
theorem Audit.reported?_under (place : Location) :
    (audit.under exclude).reported? (file.under exclude) place = audit.reported? file place := by
  simp only [Audit.reported?, Audit.origin_under, SurveyedFile.asset_under]
  rfl

theorem Audit.inOrder_under {isOwn : SurveyedFile → Bool}
    (h : ∀ file : SurveyedFile, isOwn (file.under exclude) = isOwn file) :
    (audit.under exclude).inOrder isOwn = (audit.inOrder isOwn).map (·.under exclude) := by
  have hown : (isOwn ∘ fun file : SurveyedFile => file.under exclude) = isOwn := funext h
  have hpage : ((·.isPage) ∘ fun file : SurveyedFile => file.under exclude) =
      fun file : SurveyedFile => file.isPage := funext (SurveyedFile.isPage_under exclude)
  simp only [Audit.inOrder, Audit.under, List.filter_map, hown, hpage, List.map_append]

theorem Audit.scriptsAndPages_under :
    (audit.under exclude).scriptsAndPages = audit.scriptsAndPages.map (·.under exclude) :=
  audit.inOrder_under exclude (SurveyedFile.isScript_under exclude)

/-! ## Scripts, elements and listeners -/

namespace Analysis

theorem Global.fileIssues_under :
    Global.fileIssues (audit.under exclude) (file.under exclude) = Global.fileIssues audit file := by
  have hissue : Global.issueFor? (audit.under exclude) (file.under exclude) =
      Global.issueFor? audit file := by
    funext global kind severity message
    simp only [Global.issueFor?, Audit.reported?_under, SurveyedFile.path_under, SurveyedFile.isPage_under]
  have hdeclaration : Global.declaration? (audit.under exclude) (file.under exclude) =
      Global.declaration? audit file := by
    funext global
    simp only [Global.declaration?, hissue, SurveyedFile.isScript_under]
    rfl
  have hoverride : Global.override? (audit.under exclude) (file.under exclude) =
      Global.override? audit file := by
    funext global
    simp only [Global.override?, hissue]
    rfl
  simp only [Global.fileIssues, SurveyedFile.script?_under, hdeclaration, hoverride]

theorem Global.issues_under : Global.issues (audit.under exclude) = Global.issues audit := by
  rw [Global.issues, Audit.scriptsAndPages_under, List.flatMap_map]
  exact List.flatMap_congr fun file _ => Global.fileIssues_under exclude audit file

theorem Element.fileIssues_under :
    Element.fileIssues (audit.under exclude) (file.under exclude) = Element.fileIssues audit file := by
  have hissue : Element.issueFor? (audit.under exclude) (file.under exclude) =
      Element.issueFor? audit file := by
    funext operation kind message
    simp only [Element.issueFor?, Audit.reported?_under, SurveyedFile.path_under, SurveyedFile.isPage_under]
  have huntracked : Element.untracked? (audit.under exclude) (file.under exclude) =
      Element.untracked? audit file := by
    funext facts created
    simp only [Element.untracked?, hissue]
    rfl
  have hoperation : Element.operation? (audit.under exclude) (file.under exclude) =
      Element.operation? audit file := by
    funext operation
    simp only [Element.operation?, hissue]
  have hoperations : Element.operations (audit.under exclude) (file.under exclude) =
      Element.operations audit file := by
    funext on found
    simp only [Element.operations, hoperation]
  simp only [Element.fileIssues, SurveyedFile.script?_under, huntracked, hoperations]
  rfl

theorem Element.issues_under : Element.issues (audit.under exclude) = Element.issues audit := by
  rw [Element.issues, Audit.scriptsAndPages_under, List.flatMap_map]
  exact List.flatMap_congr fun file _ => Element.fileIssues_under exclude audit file

theorem Memory.ofFiles_under (root : String) (files : List SurveyedFile) :
    Memory.ofFiles root (files.map (·.under exclude)) = Memory.ofFiles root files := by
  simp only [Memory.ofFiles, List.foldl_map, SurveyedFile.ownScript?_under, SurveyedFile.path_under]

namespace Listener

theorem anonymousIssues_under :
    anonymousIssues (audit.under exclude) (file.under exclude) = anonymousIssues audit file := by
  simp only [anonymousIssues, issueAt, SurveyedFile.script?_under, SurveyedFile.path_under,
    SurveyedFile.isPage_under, Audit.reported?_under]
  rfl

theorem inlineIssues_under :
    inlineIssues (audit.under exclude) (file.under exclude) = inlineIssues audit file := by
  unfold inlineIssues
  rw [SurveyedFile.page?_under]
  cases file.page? with
  | none => rfl
  | some page =>
    simp only [Option.map_some, issueAt, SurveyedFile.path_under, Audit.origin_under]
    rfl

theorem candidates_under :
    candidates (audit.under exclude) (file.under exclude) = candidates audit file := by
  unfold candidates
  rw [SurveyedFile.ownScript?_under]
  cases hscript : file.ownScript? with
  | none => rfl
  | some facts =>
    simp only [Audit.reported?_under]
    rw [file.under_of_ownScript? exclude hscript]

theorem removals_under : removals (audit.under exclude) = removals audit := by
  rw [removals, Audit.under, List.flatMap_map, ← Audit.under]
  refine List.flatMap_congr fun file _ => ?_
  simp only [SurveyedFile.ownScript?_under, Audit.origin_under]

theorem resolveKeys_under : ∀ (queries : List (Script.Listener × SourceMap.Origin)) (memory : Memory),
    resolveKeys (audit.under exclude) queries memory = resolveKeys audit queries memory
  | [], _ => rfl
  | (listener, origin) :: queries, memory => by
    have hkey : resolveKey (audit.under exclude) listener origin memory =
        resolveKey audit listener origin memory := rfl
    simp only [resolveKeys, hkey, resolveKeys_under queries]

theorem issues_under (memory : Memory) :
    (issues (audit.under exclude) memory).1 = (issues audit memory).1 := by
  have hunremoved : unremoved (audit.under exclude) = unremoved audit := by
    funext candidates memory
    simp only [unremoved, removals_under, resolveKeys_under]
  simp only [fst_issues, Audit.scriptsAndPages_under, List.flatMap_map, anonymousIssues_under,
    inlineIssues_under, candidates_under, hunremoved]
  rfl

end Listener

/-! ## Styles -/

namespace Style

open AssetAudit.Style (Rule)
open AssetAudit.Style.Selector (anyGlobal)

theorem issueAt_under : issueAt (file.under exclude) = issueAt file := by
  funext origin kind severity message
  simp only [issueAt, SurveyedFile.path_under, SurveyedFile.isPage_under]

theorem ruleIssues_under : ∀ (found : List Rule) (seen : List String),
    ruleIssues (audit.under exclude) (file.under exclude) seen found = ruleIssues audit file seen found
  | [], _ => rfl
  | rule :: found, seen => by
    have hcomplex : complexIssues (audit.under exclude).options.rules =
        complexIssues audit.options.rules := rfl
    have himportant : importantIssues (audit.under exclude).options.rules =
        importantIssues audit.options.rules := rfl
    have hduplicate : duplicateIssue (audit.under exclude).options.rules =
        duplicateIssue audit.options.rules := rfl
    unfold ruleIssues
    simp only [Audit.reported?_under, SurveyedFile.isPage_under, issueAt_under, ruleIssues_under found,
      hcomplex, himportant, hduplicate]

/-- Without the exclusion every rule acts globally that does so with it. -/
theorem anyGlobal_false {selectors : List String} (h : anyGlobal true selectors = true) :
    anyGlobal false selectors = true := by
  obtain ⟨selector, hselector, -⟩ := List.any_eq_true.1 h
  exact List.any_eq_true.2 ⟨selector, hselector, AssetAudit.Style.Selector.isGlobal_false selector⟩

theorem globalIssue_under_sublist (rules : Rules) (emit : Emit) (selector : String) :
    (globalIssue (rules.set .excludeGlobalSelectorAfterClass true) emit selector).Sublist
      (globalIssue (rules.set .excludeGlobalSelectorAfterClass false) emit selector) := by
  unfold globalIssue
  cases (partsOf selector).find? globalParts.contains with
  | none => exact .refl _
  | some part =>
    simp only
    split
    · rename_i hcounts
      have hon : rules.globalSelector = true := (Bool.and_eq_true_iff.1 hcounts).1
      have hoff : (rules.globalSelector && countsAsGlobal false selector) = true := by rw [hon]; rfl
      exact (if_pos hoff) ▸ .refl _
    · exact List.nil_sublist _

theorem globalRuleIssues_under_sublist (rules : Rules) (emit : Emit) (rule : Rule) :
    (globalRuleIssues (rules.set .excludeGlobalSelectorAfterClass true) emit rule).Sublist
      (globalRuleIssues (rules.set .excludeGlobalSelectorAfterClass false) emit rule) := by
  refine List.Sublist.append (List.Sublist.flatMap_right _ fun selector _ => ?_) (.refl _)
  exact List.Sublist.append (.refl _) (globalIssue_under_sublist rules emit selector)

theorem fileIssues_under_sublist : (fileIssues (audit.under true) (file.under true)).Sublist
    (fileIssues (audit.under false) (file.under false)) := by
  unfold fileIssues
  simp only [SurveyedFile.style?_under]
  cases file.style? with
  | none => exact .refl _
  | some facts =>
    simp only [Option.map_some, Audit.reported?_under, issueAt_under, ruleIssues_under]
    refine List.Sublist.append ?_ (.refl _)
    have hrules : ((facts.under true).globalRules.filter (!isModuleRule ·)).Sublist
        ((facts.under false).globalRules.filter (!isModuleRule ·)) :=
      (List.monotone_filter_right facts.rules fun rule => anyGlobal_false).filter _
    refine (List.Sublist.flatMap_right _ fun rule _ => ?_).trans (hrules.flatMap _)
    cases audit.reported? file rule.location with
    | none => exact .refl _
    | some origin => exact globalRuleIssues_under_sublist audit.options.rules (issueAt file origin) rule

theorem issues_under_sublist : (issues (audit.under true)).Sublist (issues (audit.under false)) := by
  have hfiles := fun exclude => audit.inOrder_under exclude (SurveyedFile.isStyle_under exclude)
  unfold issues
  rw [hfiles, hfiles, List.flatMap_map, List.flatMap_map]
  exact List.Sublist.flatMap_right _ fun file _ => fileIssues_under_sublist audit file

/-! ## The first part of a selector -/

theorem head?_partsOf {selector : String} (h : leadingPart selector ≠ "") :
    (partsOf selector).head? = some (leadingPart selector) := by
  have hne : selector.toList.takeWhile (!isGap ·) ≠ [] := by
    intro hnil
    rw [leadingPart, hnil] at h
    exact h rfl
  have hruns := Text.head?_runsFrom isGap selector.toList [] hne
  rw [partsOf, List.head?_map]
  exact congrArg (Option.map String.ofList) hruns

/-- With the exclusion on, what counts as global does not start with a class. -/
theorem head_ne_class {selector part : String} (h : countsAsGlobal true selector = true)
    (hpart : part ∈ (partsOf selector).head?) : part.toList.head? ≠ some '.' := by
  have hkinds : ∀ kind ∈ globalParts, kind ≠ "" ∧ kind.toList.head? ≠ some '.' := by decide +kernel
  unfold countsAsGlobal at h
  rw [Bool.not_true, Bool.false_or, Bool.or_eq_true] at h
  rcases h with hleading | hnone
  · obtain ⟨hne, hclass⟩ := hkinds _ (List.contains_iff_mem.1 hleading)
    rw [head?_partsOf hne, Option.mem_some_iff] at hpart
    rw [← hpart]
    exact hclass
  · intro hclass
    have hany : (partsOf selector).any (fun part => part.toList.head? == some '.') = true :=
      List.any_eq_true.2 ⟨part, List.mem_of_mem_head? hpart, beq_iff_eq.2 hclass⟩
    rw [hany] at hnone
    cases hnone

theorem countsAsGlobal_of_mem_fileIssues {issue : Issue} {selector : String}
    (h : issue ∈ fileIssues audit file) (hkind : issue.kind = .globalSelector selector) :
    countsAsGlobal audit.options.rules.excludeGlobalSelectorAfterClass selector = true := by
  have hflag : ("global_selector", selector) ∈ flagsOf (fileIssues audit file) :=
    List.mem_filterMap.2 ⟨issue, h, by rw [hkind]; rfl⟩
  rw [flags_fileIssues] at hflag
  split at hflag
  · cases hflag
  · obtain ⟨rule, -, hrule⟩ := List.mem_flatMap.1 hflag
    unfold ruleFlags at hrule
    split at hrule
    · obtain ⟨other, -, hother⟩ := List.mem_flatMap.1 hrule
      exact countsAsGlobal_of_mem_selectorFlags hother
    · cases hrule

end Style
end Analysis
end Audit

/-! ## Scans -/

open Analysis in
/-- With selectors below a class left out, a scan finds a part of the style issues that it finds otherwise
and the same issues of scripts and elements, and no selector that starts with a class is reported as
global. -/
theorem exclusion_only_removes_styles (disk : Disk) (root : String) (options : Options)
    (scannedAt : String) (assets : AssetMap) :
    let scan (exclude : Bool) := (Scan.ofAssets disk root
      { options with rules := options.rules.set .excludeGlobalSelectorAfterClass exclude }
      scannedAt assets).map (·.results)
    (∃ error, scan true = .error error ∧ scan false = .error error) ∨
      ∃ kept all, scan true = .ok kept ∧ scan false = .ok all ∧ kept.styles.Sublist all.styles ∧
        kept.globals = all.globals ∧ kept.listeners = all.listeners ∧ kept.elements = all.elements ∧
        ∀ issue ∈ kept.styles, ∀ selector, issue.kind = .globalSelector selector →
          ∀ part ∈ (Style.partsOf selector).head?, part.toList.head? ≠ some '.' := by
  intro scan
  generalize hfilter : IgnoreFilter.ofEntries root options.ignored = filter
  generalize hsurvey : Survey.ofAssets options filter assets = survey
  generalize haudit : Scan.auditOf disk root options filter survey = audit
  have hscan : ∀ exclude, scan exclude =
      if survey.parsedCount == 0 then .error (.noFiles options.scanRoot)
      else .ok (Scan.analyse (audit.under exclude) (.ofFiles root survey.files)).1 := by
    intro exclude
    have hunder : Survey.ofAssets (options.under exclude) filter assets =
        ⟨survey.files.map (·.under exclude), survey.rules⟩ := by
      rw [Survey.ofAssets_under, hsurvey]
    change Except.map _ (Scan.ofAssets disk root (options.under exclude) scannedAt assets) = _
    have hignored : (options.under exclude).ignored = options.ignored := rfl
    simp only [Scan.ofAssets, hignored, hfilter, hunder, Survey.parsedCount_under, Scan.resultsOf,
      Memory.ofFiles_under, ← haudit]
    split <;> rfl
  rw [hscan, hscan]
  split
  · exact Or.inl ⟨_, rfl, rfl⟩
  · refine Or.inr ⟨_, _, rfl, rfl, Style.issues_under_sublist audit, ?_, ?_, ?_, ?_⟩
    · exact (Global.issues_under true audit).trans (Global.issues_under false audit).symm
    · exact (Listener.issues_under true audit _).trans (Listener.issues_under false audit _).symm
    · exact (Element.issues_under true audit).trans (Element.issues_under false audit).symm
    · intro issue hissue selector hkind part hpart
      obtain ⟨file, -, hfile⟩ := List.mem_flatMap.1 hissue
      have hcounts : Style.countsAsGlobal true selector = true :=
        Style.countsAsGlobal_of_mem_fileIssues (audit.under true) file hfile hkind
      exact Style.head_ne_class hcounts hpart

theorem card_paragraph_left_out :
    let sheet : Asset := ⟨"a.css", ".card p \x7b margin: 0 \x7d h1, .x \x7b top: 0 \x7d", none⟩
    let scan (exclude : Bool) := (Scan.ofAssets (.atDirectory "/app") "/app"
      { rules := Rules.set {} .excludeGlobalSelectorAfterClass exclude } "" ⟨[], [sheet], []⟩).map (·.results)
    ∃ kept all, scan true = .ok kept ∧ scan false = .ok all ∧ kept.styles.Sublist all.styles ∧
      flagsOf kept.styles = [("global_selector", "h1")] ∧
      flagsOf all.styles = [("global_selector", ".card p"), ("global_selector", "h1")] := by
  intro sheet scan
  have hkept : (scan true).toOption.any (fun results =>
      flagsOf results.styles == [("global_selector", "h1")]) = true := by decide +kernel
  have hall : (scan false).toOption.any (fun results =>
      flagsOf results.styles == [("global_selector", ".card p"), ("global_selector", "h1")]) = true := by
    decide +kernel
  rcases exclusion_only_removes_styles (.atDirectory "/app") "/app" {} "" ⟨[], [sheet], []⟩ with
    ⟨error, htrue, -⟩ | ⟨kept, all, htrue, hfalse, hsublist, -⟩
  · have herror : scan true = .error error := htrue
    rw [herror] at hkept
    cases hkept
  · have hok : scan true = .ok kept := htrue
    have hok' : scan false = .ok all := hfalse
    rw [hok] at hkept
    rw [hok'] at hall
    exact ⟨kept, all, hok, hok', hsublist, beq_iff_eq.1 hkept, beq_iff_eq.1 hall⟩

end AssetAudit
