import AssetAudit.Proofs.EmittedIssue
import AssetAudit.Proofs.PageName

/-!
# Issues that no rule ignores

Before an issue is made, the rules are asked about the place it comes from: about the source if that is
known, and else about the asset. The issue is then filed under one of the two. `passes_located` says
that it is the one the rules were asked about, whatever the source map led to; what is done to an issue
after that does not move it (`Passes.withFallbackCode`, `Passes.inPage`).

So no rule of the scan ignores an issue that is found in a script or a style sheet
(`passes_of_emitted`). Nothing on a page is ignored, so the name of the file must not be that of a page:
this is `isPage_eq_false`.
-/
namespace AssetAudit

/-- Whether no rule ignores an issue where it is filed. -/
structure IgnoreFilter.Passes (filter : IgnoreFilter) (issue : Issue) : Prop where
  file : filter.ignoresFile issue.file = false
  line : ∀ place, issue.position = some place →
    filter.ignoresLine issue.file place.start.line = false

open IgnoreFilter (Passes)

variable {audit : Audit} {file : SurveyedFile}

/-! ## From the gate to the issue -/

theorem ignores_eq_false {filter : IgnoreFilter} {asset : Asset} {line : Option Nat}
    {source : String} (hpage : asset.isPage = false)
    (h : filter.ignores asset line (some source) = false) :
    let filed := if SourceMap.isKnown source then source else asset.name
    filter.ignoresFile filed = false ∧ ∀ n, line = some n → filter.ignoresLine filed n = false := by
  intro filed
  unfold IgnoreFilter.ignores at h
  by_cases hknown : SourceMap.isKnown source = true
  · have hfiled : filed = source := if_pos hknown
    rw [hfiled]
    simp only [hpage, Bool.false_eq_true, if_false, Option.filter_some, hknown, if_true,
      Bool.or_eq_false_iff] at h
    refine ⟨h.1, ?_⟩
    rintro n rfl
    simpa using h.2
  · have hfiled : filed = asset.name := if_neg hknown
    rw [hfiled]
    simp only [hpage, Bool.false_eq_true, if_false, Option.filter_some, hknown,
      Bool.or_eq_false_iff] at h
    refine ⟨h.1, ?_⟩
    rintro n rfl
    have := h.2
    simp only [Option.any_some, Bool.or_eq_false_iff] at this
    exact this.1

theorem passes_located {place : Location} {origin : SourceMap.Origin} {issue : Issue}
    (hpage : file.asset.isPage = false) (h : audit.reported? file place = some origin)
    (hfile : issue.file = file.path) : audit.filter.Passes (issue.located origin) := by
  unfold Audit.reported? at h
  generalize audit.origin file place = found at h
  simp only [Option.ite_none_left_eq_some, Option.some.injEq] at h
  obtain ⟨hkept, rfl⟩ := h
  obtain ⟨hf, hl⟩ := ignores_eq_false hpage (Bool.eq_false_iff.2 hkept)
  refine ⟨?_, ?_⟩
  · rw [Issue.located, hfile]
    exact hf
  · intro filed hfiled
    rw [Issue.located, hfile]
    refine hl _ ?_
    rw [SourceMap.Origin.line?, show found.location = some filed from hfiled]
    rfl

theorem IgnoreFilter.Passes.withFallbackCode {filter : IgnoreFilter} {issue : Issue} (h : filter.Passes issue)
    (code : String) : filter.Passes (issue.withFallbackCode code) := by
  unfold Issue.withFallbackCode
  split
  · exact h
  · exact ⟨h.file, h.line⟩

theorem IgnoreFilter.Passes.inPage {filter : IgnoreFilter} {issue : Issue} (h : filter.Passes issue)
    (label : String) {isPage : Bool} (hpage : isPage = false) :
    filter.Passes (issue.inPage label isPage) := by
  rw [Issue.inPage, hpage, if_neg Bool.false_ne_true]
  exact h

/-! ## Scans -/

theorem passes_of_emitted (hasset : file.asset.isPage = false) (hpage : file.isPage = false)
    (category : Category) : ∀ issue ∈ emitted audit file category, audit.filter.Passes issue := by
  intro issue h
  obtain ⟨base, place, code, label, inPart, -, path, kept, part, -⟩ := arises_of_emitted category issue h
  have hwhole := Bool.eq_false_iff.2 fun hpart => Bool.false_ne_true (hpage.symm.trans (part hpart))
  exact Passes.inPage (Passes.withFallbackCode (passes_located hasset (kept hpage) path) _) _ hwhole

theorem Survey.asset_surveyFile (options : Options) (filter : IgnoreFilter) (asset : Asset) :
    (Survey.surveyFile options filter asset).asset = asset := by
  unfold Survey.surveyFile
  split <;> rfl

theorem SurveyedFile.isPage_eq_false (h : file.isScript = true ∨ file.isStyle = true) :
    file.isPage = false := by
  unfold SurveyedFile.isScript SurveyedFile.isStyle at h
  unfold SurveyedFile.isPage
  cases hf : file.findings <;> simp [hf] at h ⊢

/-- Every issue of a scan is found in a surveyed file, and the rules of the scan ignore none that is
found in a script or a style sheet. -/
theorem issues_never_ignored (disk : Disk) (root : String) (options : Options) (assets : AssetMap) :
    let filter := IgnoreFilter.ofEntries root options.ignored
    let survey := Survey.ofAssets options filter assets
    let audit := Scan.auditOf disk root options filter survey
    let results := Scan.resultsOf disk root options filter survey
    (∀ category, ∀ issue ∈ results.get category,
      ∃ file ∈ survey.files, issue ∈ emitted audit file category) ∧
    ∀ file ∈ survey.files, file.isScript = true ∨ file.isStyle = true →
      ∀ category, ∀ issue ∈ emitted audit file category,
        audit.filter.ignoresFile issue.file = false ∧
        ∀ place, issue.position = some place →
          audit.filter.ignoresLine issue.file place.start.line = false := by
  intro filter survey audit results
  refine ⟨fun category issue h => exists_emitted h, ?_⟩
  intro file hfile hkind category issue hissue
  obtain ⟨asset, -, rfl⟩ := List.mem_map.1 hfile
  have hasset : (Survey.surveyFile options filter asset).asset.isPage = false := by
    rw [Survey.asset_surveyFile]
    exact isPage_eq_false hkind
  obtain ⟨hf, hl⟩ := passes_of_emitted hasset (SurveyedFile.isPage_eq_false hkind) category issue
    hissue
  exact ⟨hf, hl⟩

end AssetAudit
