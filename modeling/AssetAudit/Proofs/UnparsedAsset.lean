import AssetAudit.Proofs.AssetOrder

/-!
# Assets without facts

An asset of a kind that is not analysed, one that cannot be parsed and one that is disabled have no
facts. They stay in the survey, but nothing after it looks at them: the analyses and the memory of
definitions see the parsed files only (`analyse_parsed`). So surveys with the same rules and the same
parsed files give the same results (`resultsOf_congr`), and an asset without facts that adds no rule can
be put anywhere among the others without a change to the report (`unparsed_asset_isolated`).
-/
namespace AssetAudit

/-! ## Parsed files -/

namespace SurveyedFile

variable {file : SurveyedFile}

theorem isParsed_of_isScript (h : file.isScript = true) : file.findings.isParsed = true := by
  unfold isScript at h
  cases hf : file.findings <;> simp [hf, Findings.isParsed] at h ⊢

theorem isParsed_of_isStyle (h : file.isStyle = true) : file.findings.isParsed = true := by
  unfold isStyle at h
  cases hf : file.findings <;> simp [hf, Findings.isParsed] at h ⊢

theorem isParsed_of_isPage (h : file.isPage = true) : file.findings.isParsed = true := by
  unfold isPage at h
  cases hf : file.findings <;> simp [hf, Findings.isParsed] at h ⊢

theorem ownScript?_eq_none (h : file.findings.isParsed = false) : file.ownScript? = none := by
  unfold ownScript?
  cases hf : file.findings <;> simp [hf, Findings.isParsed] at h ⊢

end SurveyedFile

/-- The files that have facts. -/
def parsedFiles (files : List SurveyedFile) : List SurveyedFile := files.filter (·.findings.isParsed)

theorem filter_parsedFiles (files : List SurveyedFile) {isOwn : SurveyedFile → Bool}
    (h : ∀ file, isOwn file = true → file.findings.isParsed = true) :
    (parsedFiles files).filter isOwn = files.filter isOwn := by
  unfold parsedFiles
  rw [List.filter_filter]
  refine List.filter_congr fun file _ => ?_
  cases hown : isOwn file with
  | true => rw [h file hown, Bool.and_true]
  | false => rw [Bool.false_and]

theorem flatMap_parsedFiles {α : Type} (files : List SurveyedFile) {find : SurveyedFile → List α}
    (h : ∀ file, file.findings.isParsed = false → find file = []) :
    (parsedFiles files).flatMap find = files.flatMap find :=
  flatMap_filter_of_forall h files

/-! ## Audits of other files -/

/-- The audit of other files. -/
def Audit.withFiles (audit : Audit) (files : List SurveyedFile) : Audit := { audit with files }

theorem Audit.alike_withFiles (audit : Audit) (files : List SurveyedFile) :
    (audit.withFiles files).Alike audit :=
  ⟨rfl, rfl, rfl, fun _ => rfl, fun _ => rfl⟩

theorem inOrder_parsedFiles (audit : Audit) {isOwn : SurveyedFile → Bool}
    (h : ∀ file, isOwn file = true → file.findings.isParsed = true) :
    (audit.withFiles (parsedFiles audit.files)).inOrder isOwn = audit.inOrder isOwn := by
  unfold Audit.inOrder Audit.withFiles
  rw [filter_parsedFiles audit.files h,
    filter_parsedFiles audit.files fun _ => SurveyedFile.isParsed_of_isPage]

namespace Analysis

theorem Memory.ofFiles_parsedFiles (root : String) (files : List SurveyedFile) :
    Memory.ofFiles root (parsedFiles files) = Memory.ofFiles root files := by
  unfold Memory.ofFiles parsedFiles
  rw [List.foldl_filter]
  congr 2
  funext table file
  cases hparsed : file.findings.isParsed with
  | true => rw [if_pos rfl]
  | false => rw [if_neg Bool.false_ne_true, SurveyedFile.ownScript?_eq_none hparsed]

namespace Listener

/-- Declarations are looked up on the disk and in the memory, not among the files. -/
theorem resolveKeys_withFiles (audit : Audit) (files : List SurveyedFile) :
    ∀ (queries : List (Script.Listener × SourceMap.Origin)) (memory : Memory),
      resolveKeys (audit.withFiles files) queries memory = resolveKeys audit queries memory
  | [], _ => rfl
  | (listener, origin) :: queries, memory => by
    have hkey : resolveKey (audit.withFiles files) listener origin memory =
        resolveKey audit listener origin memory := rfl
    simp only [resolveKeys, hkey, resolveKeys_withFiles audit files queries]

theorem removals_parsedFiles (audit : Audit) :
    removals (audit.withFiles (parsedFiles audit.files)) = removals audit := by
  refine flatMap_parsedFiles audit.files fun file hparsed => ?_
  rw [SurveyedFile.ownScript?_eq_none hparsed]

theorem issues_parsedFiles (audit : Audit) (memory : Memory) :
    (issues (audit.withFiles (parsedFiles audit.files)) memory).1 = (issues audit memory).1 := by
  have halike := audit.alike_withFiles (parsedFiles audit.files)
  have hfiles : (audit.withFiles (parsedFiles audit.files)).scriptsAndPages = audit.scriptsAndPages :=
    inOrder_parsedFiles audit fun _ => SurveyedFile.isParsed_of_isScript
  have hunremoved : unremoved (audit.withFiles (parsedFiles audit.files)) =
      unremoved audit := by
    funext candidates memory
    simp only [unremoved, removals_parsedFiles, resolveKeys_withFiles]
  rw [fst_issues, fst_issues, hunremoved, hfiles, anonymousIssues_alike halike,
    inlineIssues_alike halike, candidates_alike halike]
  rfl

end Listener
end Analysis

/-! ## Results -/

open Analysis in
/-- The analyses see the parsed files only. -/
theorem analyse_parsed (audit : Audit) :
    let parsed := parsedFiles audit.files
    (Scan.analyse (audit.withFiles parsed) (.ofFiles audit.root parsed)).1 =
      (Scan.analyse audit (.ofFiles audit.root audit.files)).1 := by
  intro parsed
  have halike := audit.alike_withFiles parsed
  have hstyles : (audit.withFiles parsed).inOrder (·.isStyle) = audit.inOrder (·.isStyle) :=
    inOrder_parsedFiles audit fun _ => SurveyedFile.isParsed_of_isStyle
  have hscripts : (audit.withFiles parsed).scriptsAndPages = audit.scriptsAndPages :=
    inOrder_parsedFiles audit fun _ => SurveyedFile.isParsed_of_isScript
  have hlisteners : (Listener.issues (audit.withFiles parsed) (.ofFiles audit.root parsed)).1 =
      (Listener.issues audit (.ofFiles audit.root audit.files)).1 := by
    rw [Memory.ofFiles_parsedFiles]
    exact Listener.issues_parsedFiles audit _
  simp only [Scan.analyse, Style.issues, Global.issues, Element.issues, hlisteners, hstyles, hscripts,
    Style.fileIssues_alike halike, Global.fileIssues_alike halike, Element.fileIssues_alike halike]

/-- Surveys with the same rules and the same parsed files give the same results. -/
theorem resultsOf_congr (disk : Disk) (root : String) (options : Options) (filter : IgnoreFilter)
    {survey other : Survey} (hrules : survey.rules = other.rules)
    (hfiles : parsedFiles survey.files = parsedFiles other.files) :
    Scan.resultsOf disk root options filter survey = Scan.resultsOf disk root options filter other := by
  have hsurvey := analyse_parsed (Scan.auditOf disk root options filter survey)
  have hother := analyse_parsed (Scan.auditOf disk root options filter other)
  unfold Scan.resultsOf
  calc (Scan.analyse (Scan.auditOf disk root options filter survey) (.ofFiles root survey.files)).1
      = _ := hsurvey.symm
    _ = _ := by simp only [Scan.auditOf, Audit.withFiles, hrules, hfiles]
    _ = _ := hother

theorem parsedCount_eq (survey : Survey) : survey.parsedCount = (parsedFiles survey.files).length :=
  List.countP_eq_length_filter

/-! ## One more asset -/

/-- `Inserts asset assets others`: the assets `others` are `assets` with one more, somewhere in one of
the three lists. -/
inductive AssetMap.Inserts (asset : Asset) : AssetMap → AssetMap → Prop
  | script (before after styles pages : List Asset) :
      Inserts asset ⟨before ++ after, styles, pages⟩ ⟨before ++ asset :: after, styles, pages⟩
  | style (scripts before after pages : List Asset) :
      Inserts asset ⟨scripts, before ++ after, pages⟩ ⟨scripts, before ++ asset :: after, pages⟩
  | page (scripts styles before after : List Asset) :
      Inserts asset ⟨scripts, styles, before ++ after⟩ ⟨scripts, styles, before ++ asset :: after⟩

theorem AssetMap.Inserts.all_eq {asset : Asset} {assets others : AssetMap}
    (h : AssetMap.Inserts asset assets others) :
    ∃ before after, assets.all = before ++ after ∧ others.all = before ++ asset :: after := by
  cases h with
  | script before after styles pages =>
    exact ⟨styles ++ before, after ++ pages, by simp [AssetMap.all], by simp [AssetMap.all]⟩
  | style scripts before after pages =>
    exact ⟨before, after ++ scripts ++ pages, by simp [AssetMap.all], by simp [AssetMap.all]⟩
  | page scripts styles before after =>
    exact ⟨styles ++ scripts ++ before, after, by simp [AssetMap.all], by simp [AssetMap.all]⟩

/-- An asset without facts and without a rule of its own changes neither the rules nor the parsed files
of a survey. -/
theorem ofAssets_inserts (options : Options) {filter : IgnoreFilter} {asset : Asset}
    {assets others : AssetMap} (h : AssetMap.Inserts asset assets others)
    (hparsed : (Survey.surveyFile options filter asset).findings.isParsed = false)
    (hrule : Survey.lineRule? filter asset = none) :
    (Survey.ofAssets options filter others).rules = (Survey.ofAssets options filter assets).rules ∧
      parsedFiles (Survey.ofAssets options filter others).files =
        parsedFiles (Survey.ofAssets options filter assets).files := by
  obtain ⟨before, after, hassets, hothers⟩ := h.all_eq
  constructor
  · change others.all.filterMap _ = assets.all.filterMap _
    rw [hassets, hothers, List.filterMap_append, List.filterMap_append, List.filterMap_cons, hrule]
  · change (others.all.map _).filter _ = (assets.all.map _).filter _
    rw [hassets, hothers, List.map_append, List.map_append, List.map_cons, List.filter_append,
      List.filter_append, List.filter_cons_of_neg (by simp [hparsed])]

/-- An asset that is of no known kind, cannot be parsed or is disabled, and whose comments add no rule,
can be put anywhere among the assets of a scan: the scan fails with the same error, or gives the same
report but for its time. -/
theorem unparsed_asset_isolated (disk : Disk) (root : String) (options : Options)
    (scannedAt scannedAt' : String) {asset : Asset} {assets others : AssetMap}
    (hinserts : AssetMap.Inserts asset assets others)
    (hparsed : (Survey.surveyFile options (.ofEntries root options.ignored) asset).findings.isParsed =
      false)
    (hrule : Survey.lineRule? (.ofEntries root options.ignored) asset = none) :
    (∃ error, Scan.ofAssets disk root options scannedAt assets = .error error ∧
      Scan.ofAssets disk root options scannedAt' others = .error error) ∨
    ∃ report, Scan.ofAssets disk root options scannedAt assets = .ok report ∧
      Scan.ofAssets disk root options scannedAt' others =
        .ok { report with summary := { report.summary with scannedAt := scannedAt' } } := by
  obtain ⟨hrules, hfiles⟩ := ofAssets_inserts options hinserts hparsed hrule
  have hresults := resultsOf_congr disk root options (.ofEntries root options.ignored) hrules hfiles
  have hcount : (Survey.ofAssets options (.ofEntries root options.ignored) others).parsedCount =
      (Survey.ofAssets options (.ofEntries root options.ignored) assets).parsedCount := by
    rw [parsedCount_eq, parsedCount_eq, hfiles]
  unfold Scan.ofAssets
  simp only [hcount, hresults]
  split
  · exact Or.inl ⟨_, rfl, rfl⟩
  · exact Or.inr ⟨_, rfl, rfl⟩

theorem broken_script_isolated :
    let broken : Asset := ⟨"b.js", "function (", none⟩
    let first : Asset := ⟨"a.js", "window.addEventListener('click', f);", none⟩
    let last : Asset := ⟨"c.js", "window.removeEventListener('click', f);", none⟩
    let scan (scripts : List Asset) :=
      Scan.ofAssets (.atDirectory "/app") "/app" {} "" ⟨scripts, [], []⟩
    (Survey.surveyFile {} (.ofEntries "/app" []) broken).findings.isParsed = false ∧
      Survey.lineRule? (.ofEntries "/app" []) broken = none ∧
      ((∃ error, scan [first, last] = .error error ∧ scan [first, broken, last] = .error error) ∨
        ∃ report, scan [first, last] = .ok report ∧ scan [first, broken, last] =
          .ok { report with summary := { report.summary with scannedAt := "" } }) := by
  intro broken first last scan
  have hparsed : (Survey.surveyFile {} (.ofEntries "/app" []) broken).findings.isParsed = false := by
    decide +kernel
  have hrule : Survey.lineRule? (.ofEntries "/app" []) broken = none := by decide +kernel
  refine ⟨hparsed, hrule, ?_⟩
  exact unparsed_asset_isolated (.atDirectory "/app") "/app" {} "" ""
    (.script [first] [last] [] []) hparsed hrule

end AssetAudit
