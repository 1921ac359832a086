import AssetAudit.Proofs.IgnoredIssue
import AssetAudit.Proofs.ListedSource

/-!
# Assets that are left out as a whole

Rules are asked twice. Before an asset is examined they are asked about every source that its map
lists, and one source that a rule covers leaves the asset out (`isDisabled_eq_false_iff`). Afterwards
they are asked about each place in turn, and there only about the source that the place comes from
(`ignores_eq_false_iff`).

The first question does not agree with the second: `assignment_reported_iff` says that a global of a
source no rule covers is reported just if no rule covers any other source of the map either. A bundle
that lists its own runtime is left out in full, although nothing in it is to be ignored
(`runtime_hides_assignment`).
-/
namespace AssetAudit

open Analysis (Global.fileIssues)

/-- The globals of an asset that is a script. -/
def Survey.globalsOf (options : Options) (asset : Asset) : List Script.GlobalVariable :=
  match Survey.examine options asset with
  | .script facts _ => facts.globals
  | _ => []

/-! ## Assets that are left out -/

theorem exists_facts_of_mem_globalsOf {options : Options} {asset : Asset}
    {global : Script.GlobalVariable} (h : global ∈ Survey.globalsOf options asset) :
    ∃ facts typed, Survey.examine options asset = .script facts typed ∧ global ∈ facts.globals := by
  unfold Survey.globalsOf at h
  split at h
  · rename_i facts typed hexamine
    exact ⟨facts, typed, hexamine, h⟩
  · cases h

theorem kind_of_dialect {extension : String}
    (h : (Script.Dialect.ofExtension? extension).isSome) :
    FileKind.ofExtension extension = .script := by
  unfold Script.Dialect.ofExtension? at h
  unfold FileKind.ofExtension
  generalize Path.bareExtension extension = bare at h
  have hbare : bare ∈ ["js", "jsx", "mjs", "cjs", "ts", "mts", "cts", "tsx"] := by
    by_contra hnot
    simp only [List.mem_cons, List.not_mem_nil, or_false, not_or] at hnot
    simp [hnot] at h
  simp only [List.mem_cons, List.not_mem_nil, or_false] at hbare
  rcases hbare with rfl | rfl | rfl | rfl | rfl | rfl | rfl | rfl <;> rfl

theorem kind_of_examine {options : Options} {asset : Asset} {facts : Script.Facts} {typed : Bool}
    (h : Survey.examine options asset = .script facts typed) :
    FileKind.ofExtension asset.extension = .script := by
  have hdialect : (Script.Dialect.ofExtension? asset.extension).isSome := by
    unfold Survey.examine at h
    simp only at h
    split at h
    · cases h
    · split at h
      · cases h
      · cases hd : Script.Dialect.ofExtension? asset.extension with
        | none => simp [hd] at h
        | some dialect => rfl
  exact kind_of_dialect hdialect

theorem isDisabled_eq_false_iff {options : Options} {filter : IgnoreFilter} {asset : Asset}
    {facts : Script.Facts} {typed : Bool}
    (h : Survey.examine options asset = .script facts typed) :
    Survey.isDisabled filter asset = false ↔
      (∀ listed ∈ SourceMap.sourcesOf asset.sourceMap?, filter.ignoresFile listed = false) ∧
        DisableComment.disablesFile asset.content = false := by
  unfold Survey.isDisabled
  rw [kind_of_examine h, Bool.or_eq_false_iff, List.any_eq_false]
  simp

/-- A scan of an asset that is left out has nothing to analyse. -/
theorem ofAssets_disabled (disk : Disk) (root : String) {options : Options} (scannedAt : String)
    {asset : Asset} (h : Survey.isDisabled (.ofEntries root options.ignored) asset = true) :
    Scan.ofAssets disk root options scannedAt ⟨[asset], [], []⟩ =
      .error (.noFiles options.scanRoot) := by
  unfold Scan.ofAssets
  simp [Survey.ofAssets, Survey.surveyFile, h, Survey.parsedCount, Findings.isParsed]

/-- The audit of a scan of one script. -/
def auditOfScript (disk : Disk) (root : String) (options : Options) (asset : Asset) : Audit :=
  let filter := IgnoreFilter.ofEntries root options.ignored
  Scan.auditOf disk root options filter (Survey.ofAssets options filter ⟨[asset], [], []⟩)

theorem ofAssets_enabled (disk : Disk) (root : String) {options : Options} (scannedAt : String)
    {asset : Asset} {facts : Script.Facts} {typed : Bool}
    (h : Survey.isDisabled (.ofEntries root options.ignored) asset = false)
    (hscript : Survey.examine options asset = .script facts typed) :
    ∃ report, Scan.ofAssets disk root options scannedAt ⟨[asset], [], []⟩ = .ok report ∧
      report.results.globals =
        Global.fileIssues (auditOfScript disk root options asset) ⟨asset, .script facts typed⟩ := by
  have hfile : Survey.surveyFile options (.ofEntries root options.ignored) asset =
      ⟨asset, .script facts typed⟩ := by
    rw [Survey.surveyFile, h, if_neg Bool.false_ne_true, hscript]
  refine ⟨_, if_neg ?_, ?_⟩
  · simp [Survey.ofAssets, Survey.parsedCount, hfile, Findings.isParsed]
  · show Analysis.Global.issues (auditOfScript disk root options asset) = _
    have hfiles : (auditOfScript disk root options asset).files = [⟨asset, .script facts typed⟩] := by
      simp [auditOfScript, Scan.auditOf, Survey.ofAssets, hfile]
    simp [Analysis.Global.issues, Audit.scriptsAndPages, Audit.inOrder, hfiles,
      SurveyedFile.isScript, SurveyedFile.isPage]

/-! ## Places that are ignored -/

/-- Where no rule ignores the source of a place, the place is ignored only if the source is as good as
unknown. -/
theorem ignores_eq_false_iff {filter : IgnoreFilter} {asset : Asset} {source : String} {line : Nat}
    (hpage : asset.isPage = false) (hfile : filter.ignoresFile source = false)
    (hline : filter.ignoresLine source line = false) :
    filter.ignores asset (some line) (some source) = false ↔
      (SourceMap.isKnown source = false → filter.ignores asset (some line) none = false) := by
  unfold IgnoreFilter.ignores
  cases hknown : SourceMap.isKnown source <;>
    simp [hpage, Option.filter_some, hknown, hfile, hline]

theorem origin_of_ends? {audit : Audit} {file : SurveyedFile} {place mapped : Location}
    {source : String} (hends : SourceMap.ends? file.asset place = some (mapped, source))
    (hread : (audit.disk.read? (Path.join audit.root source)).isSome) :
    (audit.origin file place).location = some mapped ∧ (audit.origin file place).source = source := by
  obtain ⟨content, hcontent⟩ := Option.isSome_iff_exists.1 hread
  unfold Audit.origin SourceMap.locate
  simp only [hends]
  unfold SourceMap.inSource
  simp only [hcontent, and_self]

/-- Whether an issue of some kind is about a global: it stands where the global comes from, and no rule
ignores that place. -/
structure Issue.IsAbout (issue : Issue) (kind : IssueKind) (audit : Audit) (file : SurveyedFile)
    (global : Script.GlobalVariable) : Prop where
  kind : issue.kind = kind
  source : issue.source = some (audit.origin file global.location).source
  position : issue.position = (audit.origin file global.location).location
  kept : audit.filter.ignores file.asset (audit.origin file global.location).line?
    (some (audit.origin file global.location).source) = false

theorem isAbout_of_issueFor? {audit : Audit} {file : SurveyedFile} (hpage : file.isPage = false)
    {global : Script.GlobalVariable} {kind : IssueKind} {severity : Severity} {message : String}
    {issue : Issue}
    (h : Analysis.Global.issueFor? audit file global kind severity message = some issue) :
    issue.IsAbout kind audit file global := by
  unfold Analysis.Global.issueFor? at h
  obtain ⟨origin, horigin, rfl⟩ := Option.map_eq_some_iff.1 h
  unfold Audit.reported? at horigin
  simp only [Option.ite_none_left_eq_some, Option.some.injEq, Bool.not_eq_true] at horigin
  obtain ⟨hkept, rfl⟩ := horigin
  rw [hpage, Issue.inPage, if_neg Bool.false_ne_true, Issue.withFallbackCode]
  split <;> exact ⟨rfl, rfl, rfl, hkept⟩

/-- An assignment is reported at the place it comes from unless that place is ignored. -/
theorem declared_iff (audit : Audit) (file : SurveyedFile) {facts : Script.Facts}
    {global : Script.GlobalVariable} {mapped : Location} {source : String}
    (hrule : audit.options.rules.globalVarDeclaration = true) (hscript : file.script? = some facts)
    (hpage : file.isPage = false) (hglobal : global ∈ facts.globals)
    (hkind : global.kind = .assignment)
    (hends : SourceMap.ends? file.asset global.location = some (mapped, source))
    (hread : (audit.disk.read? (Path.join audit.root source)).isSome) :
    (∃ issue ∈ Global.fileIssues audit file,
        issue.kind = .globalVarDeclaration global.name global.kind.name ∧
        issue.source = some source ∧ issue.position = some mapped) ↔
      audit.filter.ignores file.asset (some mapped.start.line) (some source) = false := by
  obtain ⟨hlocation, hsource⟩ := origin_of_ends? hends hread
  have hmapped : (audit.origin file global.location).line? = some mapped.start.line := by
    rw [SourceMap.Origin.line?, hlocation]
    rfl
  unfold Global.fileIssues
  simp only [hscript, List.mem_append, List.mem_filterMap]
  constructor
  · rintro ⟨issue, ⟨other, -, hissue⟩ | ⟨other, -, hissue⟩, hissueKind, hissueSource, hposition⟩
    · -- The issue may be another global's, but the rules are asked about its line and source only.
      unfold Analysis.Global.declaration? at hissue
      simp only [Option.ite_none_right_eq_some] at hissue
      have habout := isAbout_of_issueFor? hpage hissue.2
      have hkept := habout.kept
      rw [SourceMap.Origin.line?, ← habout.position, ← habout.source, hposition, hissueSource] at hkept
      exact hkept
    · unfold Analysis.Global.override? at hissue
      simp only [Option.ite_none_right_eq_some] at hissue
      have hkind' := hissueKind.symm.trans (isAbout_of_issueFor? hpage hissue.2).kind
      cases hkind'
  · intro hkept
    have hreported : audit.reported? file global.location =
        some (audit.origin file global.location) := by
      unfold Audit.reported?
      simp only [hmapped, hsource, hkept, Bool.false_eq_true, if_false]
    have hdeclared : (Analysis.Global.declaration? audit file global).isSome := by
      simp [Analysis.Global.declaration?, Analysis.Global.issueFor?, hrule, hkind, hreported]
    obtain ⟨issue, hissue⟩ := Option.isSome_iff_exists.1 hdeclared
    refine ⟨issue, Or.inl ⟨global, hglobal, hissue⟩, ?_⟩
    unfold Analysis.Global.declaration? at hissue
    simp only [Option.ite_none_right_eq_some] at hissue
    have habout := isAbout_of_issueFor? hpage hissue.2
    exact ⟨habout.kind, habout.source.trans (congrArg some hsource), habout.position.trans hlocation⟩

/-- An assignment of a source that no rule ignores is reported just if the asset is not left out: no rule
covers any source that the map lists, and no comment disables the file. Where the source has the name
that stands for none, the rules on the asset count as well. -/
theorem assignment_reported_iff (disk : Disk) (root : String) (options : Options)
    (scannedAt : String) (asset : Asset) {global : Script.GlobalVariable} {mapped : Location}
    {source : String} (hrule : options.rules.globalVarDeclaration = true)
    (hglobal : global ∈ Survey.globalsOf options asset) (hkind : global.kind = .assignment)
    (hends : SourceMap.ends? asset global.location = some (mapped, source))
    (hread : (disk.read? (Path.join root source)).isSome)
    (hfile : (auditOfScript disk root options asset).filter.ignoresFile source = false)
    (hline : (auditOfScript disk root options asset).filter.ignoresLine source mapped.start.line =
      false) :
    (∃ report, Scan.ofAssets disk root options scannedAt ⟨[asset], [], []⟩ = .ok report ∧
      ∃ issue ∈ report.results.globals,
        issue.kind = .globalVarDeclaration global.name "assignment" ∧
        issue.source = some source ∧ issue.position = some mapped) ↔
    (∀ listed ∈ SourceMap.sourcesOf asset.sourceMap?,
        (IgnoreFilter.ofEntries root options.ignored).ignoresFile listed = false) ∧
      DisableComment.disablesFile asset.content = false ∧
      (SourceMap.isKnown source = false →
        (auditOfScript disk root options asset).filter.ignores asset (some mapped.start.line) none =
          false) := by
  obtain ⟨facts, typed, hscript, hmem⟩ := exists_facts_of_mem_globalsOf hglobal
  have hpage : asset.isPage = false := (SourceMap.ends?_eq_some hends).1
  have hdeclared := declared_iff (auditOfScript disk root options asset)
    ⟨asset, .script facts typed⟩ hrule rfl rfl hmem hkind hends hread
  rw [hkind] at hdeclared
  rw [← and_assoc, ← isDisabled_eq_false_iff hscript, ← ignores_eq_false_iff hpage hfile hline]
  cases hdisabled : Survey.isDisabled (.ofEntries root options.ignored) asset with
  | true =>
    rw [ofAssets_disabled disk root scannedAt hdisabled]
    simp
  | false =>
    obtain ⟨report, hreport, hglobals⟩ := ofAssets_enabled disk root scannedAt hdisabled hscript
    rw [hreport, ← hdeclared]
    simp only [Except.ok.injEq, exists_eq_left', hglobals, true_and]
    exact Iff.rfl

theorem bundle_assignment_reported :
    let map := "\x7b\"sources\":[\"src/a.js\",\"src/b.js\"],\"mappings\":\"AAAA\"\x7d"
    let asset : Asset := ⟨"dist/main.js", "window.a = 1;", some map⟩
    let disk : Disk := ⟨["app"], [(["app", "src", "a.js"], .text "window.a = 1;\n")]⟩
    ∃ report, Scan.ofAssets disk "/app" {} "" ⟨[asset], [], []⟩ = .ok report ∧
      ∃ issue ∈ report.results.globals, issue.kind = .globalVarDeclaration "a" "assignment" ∧
        issue.source = some "src/a.js" ∧ issue.position = some ⟨⟨1, 1⟩, ⟨1, 1⟩⟩ := by
  intro map asset disk
  have hglobal : ⟨"a", .assignment, "window.a = 1", ⟨⟨1, 1⟩, ⟨1, 13⟩⟩⟩ ∈ Survey.globalsOf {} asset := by
    decide +kernel
  have hends : SourceMap.ends? asset ⟨⟨1, 1⟩, ⟨1, 13⟩⟩ = some (⟨⟨1, 1⟩, ⟨1, 1⟩⟩, "src/a.js") := by
    decide +kernel
  exact (assignment_reported_iff disk "/app" {} "" asset rfl hglobal rfl hends (by decide +kernel)
    (by decide +kernel) (by decide +kernel)).2 (by decide +kernel)

/-- A bundle that lists its runtime is left out, though its assignment comes from a source that no rule
ignores. -/
theorem runtime_hides_assignment :
    let map := "\x7b\"sources\":[\"src/a.js\",\"webpack/runtime/x\"],\"mappings\":\"AAAA\"\x7d"
    let asset : Asset := ⟨"dist/main.js", "window.a = 1;", some map⟩
    let disk : Disk := ⟨["app"], [(["app", "src", "a.js"], .text "window.a = 1;\n")]⟩
    let filter := (auditOfScript disk "/app" {} asset).filter
    (∃ global ∈ Survey.globalsOf {} asset, global.kind = .assignment ∧
      SourceMap.ends? asset global.location = some (⟨⟨1, 1⟩, ⟨1, 1⟩⟩, "src/a.js")) ∧
    disk.read? (Path.join "/app" "src/a.js") = some "window.a = 1;\n" ∧
    filter.ignoresFile "src/a.js" = false ∧ filter.ignoresLine "src/a.js" 1 = false ∧
    Scan.ofAssets disk "/app" {} "" ⟨[asset], [], []⟩ = .error (.noFiles "index.ts") := by
  intro map asset disk filter
  refine ⟨⟨⟨"a", .assignment, "window.a = 1", ⟨⟨1, 1⟩, ⟨1, 13⟩⟩⟩, ?_, rfl, ?_⟩, ?_, ?_, ?_, ?_⟩
  · decide +kernel
  · decide +kernel
  · decide +kernel
  · decide +kernel
  · decide +kernel
  · exact ofAssets_disabled disk "/app" "" (by decide +kernel)

end AssetAudit
