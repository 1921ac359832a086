import AssetAudit.Proofs.AssetOrder
import AssetAudit.Proofs.DisabledAsset
import AssetAudit.Proofs.TextSearch

/-!
# Lines that comments switch off

A text that does not hold the keyword has no comments that switch something off, so looking for it first
loses none (`allScopes_eq_lineScopes`). The lines that the comments of an asset switch off
(`mem_disabledLines`) become a line rule on the asset. It stands behind the configured rules and behind
those of the assets that are surveyed before, and the first line rule that designates an asset counts:
the asset's own rule decides where no rule before it designates the asset (`ignoredLines?_own`).

Main statement: `comment_silences_line`. That a comment can be overruled, by a configured rule or by the
comments of another asset at the same place, is `comment_overruled`.
-/
namespace AssetAudit

/-! ## Lines -/

namespace DisableComment

/-- Whether a comment on a line, or on the line before it, switches the line off. -/
def SwitchesOff (content : String) (line : Nat) : Prop :=
  ∃ index text, (Text.lines content.toList)[index]? = some text ∧
    (Scope.line ∈ scopes text ∧ line = index + 1 ∨ Scope.nextLine ∈ scopes text ∧ line = index + 2)

/-- A comment that switches something off holds the keyword. -/
theorem keyword_infix_of_scopeAt? {text after : List Char} {scope : Scope}
    (h : scopeAt? text = some (scope, after)) : keyword <:+: text := by
  simp only [scopeAt?, Option.bind_eq_bind, Option.bind_eq_some_iff] at h
  obtain ⟨rest, hopening, back, hkeyword, -⟩ := h
  have hstart : keyword <+: Text.trimStart rest := ⟨back, (Text.after?_eq_some_iff.1 hkeyword).symm⟩
  have hrest : rest <:+ text := by
    unfold afterOpening? at hopening
    split at hopening
    · cases hopening
      exact ⟨['/', '/'], rfl⟩
    · cases hopening
      exact ⟨['/', '*'], rfl⟩
    · cases hopening
  exact (hstart.isInfix.trans (List.dropWhile_suffix _).isInfix).trans hrest.isInfix

theorem keyword_infix_of_mem_scopesFrom {scope : Scope} : ∀ {passed : Nat} {text : List Char},
    scope ∈ scopesFrom passed text → keyword <:+: text
  | passed + 1, _ :: rest, h => by
    rw [scopesFrom] at h
    exact List.infix_cons (keyword_infix_of_mem_scopesFrom h)
  | 0, c :: rest, h => by
    rw [scopesFrom] at h
    split at h
    · rename_i found after hfound
      exact keyword_infix_of_scopeAt? hfound
    · exact List.infix_cons (keyword_infix_of_mem_scopesFrom h)

/-- A text without the keyword has no comments that switch something off, so the check for the keyword
loses none. -/
theorem allScopes_eq_lineScopes (content : String) : allScopes content = lineScopes content := by
  rw [allScopes]
  split
  · rfl
  · rename_i hno
    rw [Text.contains_iff] at hno
    refine (List.flatMap_eq_nil_iff.2 ?_).symm
    rintro ⟨line, number⟩ hline
    have hmem : line ∈ Text.lines content.toList :=
      List.mem_of_getElem? (List.mk_mem_zipIdx_iff_le_and_getElem?_sub.1 hline).2
    refine List.map_eq_nil_iff.2 (List.eq_nil_iff_forall_not_mem.2 fun scope hscope => hno ?_)
    exact (keyword_infix_of_mem_scopesFrom hscope).trans (Text.infix_of_mem_lines hmem)

theorem mem_allScopes {content : String} {scope : Scope} {number : Nat} :
    (scope, number) ∈ allScopes content ↔ ∃ index text,
      (Text.lines content.toList)[index]? = some text ∧ scope ∈ scopes text ∧ number = index + 1 := by
  rw [allScopes_eq_lineScopes]
  unfold lineScopes
  simp only [List.mem_flatMap, List.mem_map, Prod.exists, Prod.mk.injEq]
  constructor
  · rintro ⟨text, number', hline, _, hscope, rfl, rfl⟩
    rw [List.mk_mem_zipIdx_iff_le_and_getElem?_sub] at hline
    exact ⟨number' - 1, text, hline.2, hscope, by omega⟩
  · rintro ⟨index, text, hline, hscope, rfl⟩
    refine ⟨text, index + 1, ?_, scope, hscope, rfl, rfl⟩
    rw [List.mk_mem_zipIdx_iff_le_and_getElem?_sub]
    exact ⟨by omega, hline⟩

theorem mem_disabledLines {content : String} {line : Nat} :
    line ∈ disabledLines content ↔ SwitchesOff content line := by
  unfold disabledLines
  rw [List.mem_eraseDups, List.mem_mergeSort, List.mem_filterMap]
  constructor
  · rintro ⟨⟨scope, number⟩, hscope, hline⟩
    obtain ⟨index, text, htext, hmem, rfl⟩ := mem_allScopes.1 hscope
    refine ⟨index, text, htext, ?_⟩
    cases scope with
    | file => cases hline
    | line => exact Or.inl ⟨hmem, (Option.some.inj hline).symm⟩
    | nextLine => exact Or.inr ⟨hmem, (Option.some.inj hline).symm⟩
  · rintro ⟨index, text, htext, ⟨hmem, rfl⟩ | ⟨hmem, rfl⟩⟩
    · exact ⟨(.line, index + 1), mem_allScopes.2 ⟨index, text, htext, hmem, rfl⟩, rfl⟩
    · exact ⟨(.nextLine, index + 1), mem_allScopes.2 ⟨index, text, htext, hmem, rfl⟩, rfl⟩

end DisableComment

/-! ## The rule of an asset -/

variable {filter : IgnoreFilter} {asset : Asset} {line : Nat}

/-- A comment that switches a line off makes a rule, unless the asset is left out as a whole. -/
theorem exists_lineRule (hkind : FileKind.ofExtension asset.extension ≠ .page)
    (henabled : Survey.isDisabled filter asset = false)
    (hoff : DisableComment.SwitchesOff asset.content line) :
    ∃ rule, Survey.lineRule? filter asset = some rule := by
  have hnumbers : (DisableComment.disabledLines asset.content).isEmpty = false :=
    List.isEmpty_eq_false_iff_exists_mem.2 ⟨line, DisableComment.mem_disabledLines.2 hoff⟩
  refine ⟨_, (if_neg ?_).trans (if_neg ?_)⟩
  · simp [hkind, henabled]
  · simp [hnumbers]

/-- The rule designates the asset itself. -/
theorem linesOf?_own {rule : IgnoreRule} (h : Survey.lineRule? filter asset = some rule) :
    rule.linesOf? filter.root asset.name = some (DisableComment.disabledLines asset.content) := by
  rw [lineRule?_eq_some h, IgnoreRule.linesOf?]
  exact if_pos (by simp [IgnoreRule.designates])

/-- The lines of an asset to ignore: those of the first rule before its own that designates it, and else
those its comments switch off. -/
theorem ignoredLines?_own {options : Options} {assets : AssetMap} {before after : List Asset}
    {rule : IgnoreRule} (hall : assets.all = before ++ asset :: after)
    (hname : Path.forward asset.name = asset.name) (hrule : Survey.lineRule? filter asset = some rule) :
    (filter.append (Survey.ofAssets options filter assets).rules).ignoredLines? asset.name =
      ((filter.rules ++ before.filterMap (Survey.lineRule? filter)).findSome?
        (·.linesOf? filter.root asset.name)).or
        (some (DisableComment.disabledLines asset.content)) := by
  have hrules : (Survey.ofAssets options filter assets).rules =
      before.filterMap (Survey.lineRule? filter) ++
        rule :: after.filterMap (Survey.lineRule? filter) := by
    show assets.all.filterMap (Survey.lineRule? filter) = _
    rw [hall, List.filterMap_append, List.filterMap_cons_some hrule]
  rw [IgnoreFilter.ignoredLines?, hname, IgnoreFilter.append, hrules]
  simp only [← List.append_assoc]
  rw [List.findSome?_append, List.findSome?_cons_of_isSome, linesOf?_own hrule]
  rw [linesOf?_own hrule]
  rfl

/-! ## Issues of an asset -/

/-- Nothing is found in a file without facts. -/
theorem isParsed_of_emitted {audit : Audit} {file : SurveyedFile} {category : Category} {issue : Issue}
    (h : issue ∈ emitted audit file category) : file.findings.isParsed = true := by
  obtain ⟨asset, findings⟩ := file
  cases findings with
  | script facts typed => rfl
  | style facts => rfl
  | page facts => rfl
  | unknown => cases category <;> cases h
  | broken => cases category <;> cases h
  | disabled kind => cases category <;> cases h

theorem isDisabled_of_isParsed {options : Options}
    (h : (Survey.surveyFile options filter asset).findings.isParsed = true) :
    Survey.isDisabled filter asset = false := by
  by_contra hdisabled
  rw [Survey.surveyFile, if_pos (Bool.not_eq_false _ ▸ hdisabled)] at h
  cases h

/-- Only a file of the kind of pages is surveyed as one. -/
theorem isPage_surveyFile {options : Options} (hkind : FileKind.ofExtension asset.extension ≠ .page) :
    (Survey.surveyFile options filter asset).isPage = false := by
  have hextension : (asset.extension == ".html" || asset.extension == ".htm") = false := by
    rw [Bool.eq_false_iff]
    intro hpage
    rw [Bool.or_eq_true, beq_iff_eq, beq_iff_eq] at hpage
    rcases hpage with hpage | hpage
    · exact hkind (hpage ▸ rfl)
    · exact hkind (hpage ▸ rfl)
  unfold Survey.surveyFile
  split
  · rfl
  · unfold Survey.examine
    simp only [hextension, Bool.false_eq_true, if_false]
    split
    · rfl
    · split
      · rfl
      · split <;> rfl

theorem SurveyedFile.isScript_or_isStyle {file : SurveyedFile} (hparsed : file.findings.isParsed = true)
    (hpage : file.isPage = false) : file.isScript = true ∨ file.isStyle = true := by
  obtain ⟨asset, findings⟩ := file
  cases findings with
  | script facts typed => exact Or.inl rfl
  | style facts => exact Or.inr rfl
  | page facts => cases hpage
  | unknown => cases hparsed
  | broken => cases hparsed
  | disabled kind => cases hparsed

/-- Without a source map, issues are filed under the asset. -/
theorem Arises.file_of_unmapped {audit : Audit} {file : SurveyedFile} {issue : Issue}
    (h : Arises audit file issue) (hmap : file.asset.sourceMap? = none) {position : Location}
    (hposition : issue.position = some position) : issue.file = file.path := by
  obtain ⟨place, origin, horigin, -, -, hfile⟩ := h.filed hposition
  have hends : SourceMap.ends? file.asset place = none := by
    unfold SourceMap.ends?
    rw [hmap]
    split <;> rfl
  have hsource : origin.source = SourceMap.fallbackSource audit.options file.asset := by
    rw [← horigin, Audit.origin, SourceMap.locate, hends]
    rfl
  rw [hfile, SourceMap.Origin.isKnown, hsource, SourceMap.fallbackSource]
  split
  · split <;> rfl
  · rfl

/-! ## Scans -/

/-- Every issue of a scan is found in a surveyed file. In a script or a style sheet that has no source map
and no backslash in its name, none is found at a line that a comment switches off, unless the first rule
before that of the comments that designates the file does not list the line; such a rule leaves the comment
without effect. -/
theorem comment_silences_line (disk : Disk) (root : String) (options : Options) (assets : AssetMap)
    {before after : List Asset} {asset : Asset} {line : Nat}
    (hall : assets.styles ++ assets.scripts ++ assets.pages = before ++ asset :: after)
    (hkind : FileKind.ofExtension asset.extension ≠ .page) (hmap : asset.sourceMap? = none)
    (hname : Path.forward asset.name = asset.name)
    (hoff : DisableComment.SwitchesOff asset.content line) :
    let filter := IgnoreFilter.ofEntries root options.ignored
    let survey := Survey.ofAssets options filter assets
    let audit := Scan.auditOf disk root options filter survey
    let earlier := (filter.rules ++ before.filterMap (Survey.lineRule? filter)).findSome?
      (·.linesOf? root asset.name)
    (∀ category, ∀ issue ∈ (Scan.resultsOf disk root options filter survey).get category,
      ∃ file ∈ survey.files, issue ∈ emitted audit file category) ∧
    ((∀ lines, earlier = some lines → line ∈ lines) →
      ∀ category, ∀ issue ∈ emitted audit (Survey.surveyFile options filter asset) category,
        ∀ place, issue.position = some place → place.start.line ≠ line) ∧
    ∀ lines, earlier = some lines → line ∉ lines →
      Survey.isDisabled filter asset = false → audit.filter.ignoresLine asset.name line = false := by
  intro filter survey audit earlier
  have hlines : Survey.isDisabled filter asset = false → audit.filter.ignoredLines? asset.name =
      earlier.or (some (DisableComment.disabledLines asset.content)) := by
    intro henabled
    obtain ⟨rule, hrule⟩ := exists_lineRule hkind henabled hoff
    exact ignoredLines?_own hall hname hrule
  refine ⟨fun category issue h => exists_emitted h, ?_, ?_⟩
  · intro hearlier category issue hissue place hplace hline
    have hparsed := isParsed_of_emitted hissue
    have hpage : (Survey.surveyFile options filter asset).isPage = false := isPage_surveyFile hkind
    have hasset : (Survey.surveyFile options filter asset).asset = asset :=
      Survey.asset_surveyFile options filter asset
    have hown := isPage_eq_false (SurveyedFile.isScript_or_isStyle hparsed hpage)
    have hfile : issue.file = asset.name := by
      have := (arises_of_emitted category issue hissue).file_of_unmapped (by rw [hasset, hmap]) hplace
      rwa [SurveyedFile.path, hasset] at this
    have hpasses := (passes_of_emitted (by rw [hasset, hown]) hpage category issue hissue).line place hplace
    rw [hfile, hline, IgnoreFilter.ignoresLine, hlines (isDisabled_of_isParsed hparsed)] at hpasses
    cases hfirst : earlier with
    | none => simp [hfirst, DisableComment.mem_disabledLines.2 hoff] at hpasses
    | some lines => simp [hfirst, hearlier lines hfirst] at hpasses
  · intro lines hearlier hline henabled
    rw [IgnoreFilter.ignoresLine, hlines henabled, hearlier]
    simpa using hline

theorem second_global_silenced :
    let asset : Asset :=
      ⟨"a.js", "window.a = 1;\nwindow.b = 2; // side-effect-scanner-disable-line", none⟩
    let styles : Asset := ⟨"a.css", "/* side-effect-scanner-disable-next-line */", none⟩
    let options : Options := { ignored := [.file "*.ts" (some [1]), .file "a.js" (some [2, 9])] }
    let filter := IgnoreFilter.ofEntries "/app" options.ignored
    let survey := Survey.ofAssets options filter ⟨[asset], [styles], []⟩
    let audit := Scan.auditOf (.atDirectory "/app") "/app" options filter survey
    let file := Survey.surveyFile options filter asset
    (Survey.globalsOf options asset).map (·.location.start.line) = [1, 2] ∧
      DisableComment.SwitchesOff asset.content 2 ∧
      (emitted audit file .globals).map (·.position) = [some ⟨⟨1, 1⟩, ⟨1, 13⟩⟩] ∧
      ∀ category, ∀ issue ∈ emitted audit file category,
        ∀ place, issue.position = some place → place.start.line ≠ 2 := by
  intro asset styles options filter survey audit file
  have hoff : DisableComment.SwitchesOff asset.content 2 :=
    DisableComment.mem_disabledLines.1 (by decide +kernel)
  have hearlier : (filter.rules ++ [styles].filterMap (Survey.lineRule? filter)).findSome?
      (·.linesOf? "/app" asset.name) = some [2, 9] := by decide +kernel
  refine ⟨by decide +kernel, hoff, by decide +kernel, ?_⟩
  refine (comment_silences_line (.atDirectory "/app") "/app" options ⟨[asset], [styles], []⟩
    (show _ = [styles] ++ asset :: [] from rfl) (by decide +kernel) rfl (by decide +kernel) hoff).2.1 ?_
  intro lines hlines
  rw [Option.some.inj (hlines.symm.trans hearlier)]
  exact List.mem_cons_self

/-- Whether a report has a global of a file at a line. -/
def Report.hasGlobalAt (file : String) (line : Nat) (report : Report) : Bool :=
  report.results.globals.any fun issue =>
    issue.file == file && issue.position.any (·.start.line == line)

/-- A comment is without effect where a configured rule lists other lines of the file, where the comments
of another asset at the same place do, and in an asset that has a backslash in its name. -/
theorem comment_overruled :
    let text := "window.a = 1; // side-effect-scanner-disable-line"
    let scan (options : Options) (scripts : List Asset) :=
      (Scan.ofAssets (.atDirectory "/app") "/app" options "" ⟨scripts, [], []⟩).toOption
    DisableComment.SwitchesOff text 1 ∧
      (scan { ignored := [.file "a.js" (some [9])] } [⟨"a.js", text, none⟩]).any
        (·.hasGlobalAt "a.js" 1) ∧
      (scan {} [⟨"./a.js", "\n" ++ text, none⟩, ⟨"a.js", text, none⟩]).any (·.hasGlobalAt "a.js" 1) ∧
      (scan {} [⟨"src\\a.js", text, none⟩]).any (·.hasGlobalAt "src\\a.js" 1) := by
  intro text scan
  refine ⟨DisableComment.mem_disabledLines.1 ?_, ?_, ?_, ?_⟩
  all_goals decide +kernel

end AssetAudit
