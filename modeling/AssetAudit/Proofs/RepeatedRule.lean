import AssetAudit.Proofs.EmittedIssue
import AssetAudit.Proofs.RuleToggle
import Mathlib.Data.Finset.Card
import Mathlib.Data.List.Induction

/-!
# Rules that are repeated

A style sheet is read rule by rule, with the selectors of the rules before. What the reading reports as
repeated so far are the repeated rules so far, which the next rule joins or not (`repeats_concat`); rules of
style modules and rules at ignored places are passed over and not remembered. So the issues about repeated
rules are those of the rules with the selectors of an earlier one, each where its rule comes from
(`repeated_rules_reported`).
-/
namespace AssetAudit

/-! ## One toggle alone -/

/-- Every toggle off, with the exclusion of selectors after a class as it is. -/
def Rules.blank (rules : Rules) : Rules where
  excludeGlobalSelectorAfterClass := rules.excludeGlobalSelectorAfterClass
  unRemovedEventListener := false
  anonymousEventHandler := false
  inlineEventHandler := false
  dynamicElementAppend := false
  dynamicElementRemove := false
  dynamicElementInsert := false
  untrackedDynamicElement := false
  globalVarDeclaration := false
  builtInOverride := false
  criticalGlobalStyle := false
  globalSelector := false
  complexSelector := false
  importantDeclaration := false
  duplicateRule := false
  globalStyleSideEffect := false

theorem Rules.get_blank {toggle : Toggle} (h : toggle ≠ .excludeGlobalSelectorAfterClass) (rules : Rules) :
    rules.blank.get toggle = false := by
  cases toggle with
  | excludeGlobalSelectorAfterClass => exact absurd rfl h
  | _ => rfl

/-- One toggle on and the others off. -/
def Rules.only (toggle : Toggle) (rules : Rules) : Rules := rules.blank.set toggle true

/-- The issues of a toggle that is on are what is found with this toggle alone. -/
theorem IsSwitched.only {find : Rules → List Issue} (h : IsSwitched find) {toggle : Toggle}
    (htoggle : toggle ≠ .excludeGlobalSelectorAfterClass) {rules : Rules} (hon : rules.get toggle = true) :
    (find rules).filter (toggle.types.contains ·.typeName) = find (rules.only toggle) := by
  rw [h, h (rules.only toggle), Rules.only, Rules.full_set htoggle, List.filter_filter]
  refine List.filter_congr fun issue _ => ?_
  simp only [Rules.reports, Rules.get_set, Rules.get_blank issue.kind.toggle_ne]
  by_cases hkind : issue.kind.toggle = toggle
  · have hmem : issue.typeName ∈ toggle.types := typeName_mem_types_iff.2 hkind
    simp [hkind, hmem, hon]
  · have hmem : issue.typeName ∉ toggle.types := fun hmem => hkind (typeName_mem_types_iff.1 hmem)
    simp [hkind, hmem]

/-- What is found has its toggle on. -/
theorem IsSwitched.reports_of_mem {find : Rules → List Issue} (h : IsSwitched find) {rules : Rules}
    {issue : Issue} (hissue : issue ∈ find rules) : rules.reports issue = true := by
  rw [h] at hissue
  exact (List.mem_filter.1 hissue).2

namespace Analysis.Style

open AssetAudit.Style (Rule Facts extract)

/-! ## Repeated rules -/

/-- The rules of a sheet that count: those of no style module whose place is not ignored. -/
def countedRules (audit : Audit) (file : SurveyedFile) (rules : List Rule) : List Rule :=
  (rules.filter (!isModuleRule ·)).filter fun rule => (audit.reported? file rule.location).isSome

/-- The rules with the selectors of an earlier rule. -/
def repeats (rules : List Rule) : List Rule :=
  (rules.zipIdx.filter fun entry =>
    (rules.take entry.2).any (·.selectorText == entry.1.selectorText)).map (·.1)

theorem repeats_concat (rules : List Rule) (rule : Rule) : repeats (rules ++ [rule]) =
    repeats rules ++ if rules.any (·.selectorText == rule.selectorText) then [rule] else [] := by
  have hbefore : ∀ entry ∈ rules.zipIdx, ((rules ++ [rule]).take entry.2) = rules.take entry.2 := by
    intro entry hentry
    rw [List.take_append_of_le_length (List.snd_lt_of_mem_zipIdx hentry).le]
  have hlast : (rules ++ [rule]).take rules.length = rules := by simp
  unfold repeats
  rw [List.zipIdx_append, List.filter_append, List.map_append]
  congr 1
  · have hfilter : ∀ entry ∈ rules.zipIdx,
        ((rules ++ [rule]).take entry.2).any (·.selectorText == entry.1.selectorText) =
          (rules.take entry.2).any (·.selectorText == entry.1.selectorText) := by
      intro entry hentry
      rw [hbefore entry hentry]
    rw [List.filter_congr hfilter]
  · simp only [List.zipIdx_singleton, Nat.zero_add, List.filter_singleton, hlast]
    cases rules.any (·.selectorText == rule.selectorText) <;> rfl

/-- Every rule is repeated or the first one with its selectors. -/
theorem length_repeats (rules : List Rule) :
    (repeats rules).length + (rules.map (·.selectorText)).toFinset.card = rules.length := by
  induction rules using List.reverseRecOn with
  | nil => rfl
  | append_singleton rules rule ih =>
    have hset : ((rules ++ [rule]).map (·.selectorText)).toFinset =
        insert rule.selectorText (rules.map (·.selectorText)).toFinset := by
      ext text
      simp
    have hany : rules.any (·.selectorText == rule.selectorText) = true ↔
        rule.selectorText ∈ (rules.map (·.selectorText)).toFinset := by simp
    rw [repeats_concat, hset, List.length_append, List.length_append, List.length_singleton]
    split
    · rename_i hseen
      rw [Finset.insert_eq_of_mem (hany.1 hseen), List.length_singleton]
      omega
    · rename_i hnew
      rw [Finset.card_insert_of_notMem fun hmem => hnew (hany.2 hmem), List.length_nil]
      omega

/-! ## What is reported -/

/-- The issue about a repeated rule, where the rule comes from. -/
def repeatIssue (audit : Audit) (file : SurveyedFile) (rule : Rule) : Issue :=
  let origin := audit.origin file rule.location
  { kind := .duplicateRule rule.selectorText
    severity := .warning
    message := "Rule " ++ rule.selectorText ++ " is declared more than once"
    file := if origin.isKnown then origin.source else file.path
    position := origin.location
    source := some origin.source
    code := origin.code }

variable (audit : Audit) (file : SurveyedFile)

/-- The audit with no toggle on but that of repeated rules. -/
def repeatAudit : Audit := audit.withRules (audit.options.rules.only .duplicateRule)

theorem globalRuleIssues_only (rules : Rules) (emit : Emit) (rule : Rule) :
    globalRuleIssues (rules.only .duplicateRule) emit rule = [] := by
  have hselector : ∀ selector, criticalIssue (rules.only .duplicateRule) emit rule selector ++
      globalIssue (rules.only .duplicateRule) emit selector = [] := by
    intro selector
    unfold globalIssue
    cases (partsOf selector).find? globalParts.contains <;> rfl
  have hdeclaration : ∀ declaration,
      sideEffectIssue (rules.only .duplicateRule) emit rule.selectorText declaration ++
        globalImportantIssue (rules.only .duplicateRule) emit rule.selectorText declaration = [] := by
    intro declaration
    unfold globalImportantIssue
    rw [if_neg (by simp [Rules.only, Rules.blank, Rules.set])]
    rfl
  simp [globalRuleIssues, hselector, hdeclaration]

theorem ruleIssues_page (hpage : file.isPage = true) : ∀ (found : List Rule) (seen : List String),
    ruleIssues (repeatAudit audit) file seen found = []
  | [], _ => rfl
  | rule :: found, seen => by
    rw [ruleIssues, repeatAudit, reported?_withRules]
    cases audit.reported? file rule.location with
    | none => exact ruleIssues_page hpage found seen
    | some origin =>
      simp only [hpage, if_true]
      exact ruleIssues_page hpage found seen

/-- The step of the reading: a rule at a place that counts is reported if its selectors were seen, and its
selectors are seen from then on. -/
theorem ruleIssues_cons {rule : Rule} (h : (audit.reported? file rule.location).isSome = true)
    (hpage : file.isPage = false) (seen : List String) (rest : List Rule) :
    ruleIssues (repeatAudit audit) file seen (rule :: rest) =
      (if seen.contains rule.selectorText then [repeatIssue audit file rule] else []) ++
        ruleIssues (repeatAudit audit) file (rule.selectorText :: seen) rest := by
  obtain ⟨origin, horigin⟩ := Option.isSome_iff_exists.1 h
  have hissue : issueAt file origin (.duplicateRule rule.selectorText) .warning
      ("Rule " ++ rule.selectorText ++ " is declared more than once") = repeatIssue audit file rule := by
    rw [reported?_eq_some horigin, issueAt, hpage]
    simp [Issue.inPage, Issue.located, repeatIssue]
  rw [ruleIssues, repeatAudit, reported?_withRules, horigin]
  simp only [hpage, Bool.false_eq_true, if_false]
  rw [← hissue]
  rfl

/-- The run of the reading: what was reported of the rules before, and what is reported now, are the
repeated rules. -/
theorem repeats_append (hpage : file.isPage = false) : ∀ (found front : List Rule) (seen : List String),
    (∀ text, text ∈ seen ↔ text ∈ front.map (·.selectorText)) →
    (repeats front).map (repeatIssue audit file) ++ ruleIssues (repeatAudit audit) file seen found =
      (repeats (front ++ found.filter fun rule => (audit.reported? file rule.location).isSome)).map
        (repeatIssue audit file)
  | [], front, seen, _ => by simp [ruleIssues]
  | rule :: found, front, seen, hseen => by
    rw [List.filter_cons]
    cases hreported : (audit.reported? file rule.location).isSome with
    | false =>
      have hnone : audit.reported? file rule.location = none := by simpa using hreported
      rw [ruleIssues, repeatAudit, reported?_withRules, hnone, if_neg Bool.false_ne_true]
      exact repeats_append hpage found front seen hseen
    | true =>
      have hany : front.any (·.selectorText == rule.selectorText) = seen.contains rule.selectorText := by
        rw [Bool.eq_iff_iff, List.contains_iff_mem, hseen]
        simp
      have hnext : ∀ text, text ∈ rule.selectorText :: seen ↔
          text ∈ (front ++ [rule]).map (·.selectorText) := by
        intro text
        rw [List.mem_cons, hseen]
        simp [or_comm]
      have hrest := repeats_append hpage found (front ++ [rule]) (rule.selectorText :: seen) hnext
      rw [repeats_concat, hany, List.append_assoc, List.map_append, List.append_assoc] at hrest
      rw [if_pos rfl, ruleIssues_cons audit file hreported hpage]
      refine Eq.trans ?_ hrest
      split <;> rfl

theorem fileIssues_repeatAudit : fileIssues (repeatAudit audit) file =
    match file.style? with
    | none => []
    | some facts => ruleIssues (repeatAudit audit) file [] (facts.rules.filter (!isModuleRule ·)) := by
  unfold fileIssues
  cases file.style? with
  | none => rfl
  | some facts =>
    refine (congrArg (· ++ _) (List.flatMap_eq_nil_iff.2 fun rule _ => ?_)).trans (List.nil_append _)
    cases (repeatAudit audit).reported? file rule.location with
    | none => rfl
    | some origin => exact globalRuleIssues_only _ _ rule

/-- The issues about repeated rules are all there is with their toggle alone. -/
theorem filter_fileIssues (h : audit.options.rules.duplicateRule = true) :
    (fileIssues audit file).filter (·.typeName == "duplicate_rule") =
      fileIssues (repeatAudit audit) file := by
  have htypes : ∀ issue : Issue, Toggle.duplicateRule.types.contains issue.typeName =
      (issue.typeName == "duplicate_rule") := by
    intro issue
    simp [Toggle.types, Bool.beq_eq_decide_eq]
  have hfilter := (isSwitched_fileIssues audit file).only
    (show Toggle.duplicateRule ≠ .excludeGlobalSelectorAfterClass by decide) h
  simp only [htypes] at hfilter
  exact hfilter

theorem typeName_ne_of_page (hpage : file.isPage = true) :
    ∀ issue ∈ fileIssues audit file, issue.typeName ≠ "duplicate_rule" := by
  intro issue hissue htype
  -- the toggle is on, because an issue of its type is reported
  have hon : audit.options.rules.duplicateRule = true := by
    have hreports : audit.options.rules.reports issue = true :=
      (isSwitched_fileIssues audit file).reports_of_mem hissue
    have htoggle : issue.kind.toggle = .duplicateRule := by
      rw [← typeName_mem_types_iff]
      exact List.mem_singleton.2 htype
    rw [Rules.reports, htoggle] at hreports
    exact hreports
  have hmem : issue ∈ (fileIssues audit file).filter (·.typeName == "duplicate_rule") := by
    rw [List.mem_filter]
    exact ⟨hissue, by simp [htype]⟩
  rw [filter_fileIssues audit file hon, fileIssues_repeatAudit] at hmem
  split at hmem
  · cases hmem
  · rw [ruleIssues_page audit file hpage] at hmem
    cases hmem

/-- A style sheet is reported for each rule that counts and has the selectors of an earlier one that counts,
in their order and where the rule comes from, and so as often as it has more rules than selectors. A page is
never reported for a repeated rule. -/
theorem repeated_rules_reported {audit : Audit} {file : SurveyedFile} {facts : Facts}
    (hstyle : file.findings = .style facts) (hon : audit.options.rules.duplicateRule = true) :
    let counted := countedRules audit file facts.rules
    let found := (fileIssues audit file).filter (·.typeName == "duplicate_rule")
    found = (repeats counted).map (repeatIssue audit file) ∧
      found.length = counted.length - (counted.map (·.selectorText)).toFinset.card ∧
      ∀ (other : Audit) (page : SurveyedFile), page.isPage = true →
        ∀ issue ∈ fileIssues other page, issue.typeName ≠ "duplicate_rule" := by
  intro counted found
  have hfound : found = (repeats counted).map (repeatIssue audit file) := by
    have hpage : file.isPage = false := by rw [SurveyedFile.isPage, hstyle]
    have hfacts : file.style? = some facts := by rw [SurveyedFile.style?, hstyle]
    have hrun := repeats_append audit file hpage (facts.rules.filter (!isModuleRule ·)) [] [] (by simp)
    calc found = fileIssues (repeatAudit audit) file := filter_fileIssues audit file hon
      _ = ruleIssues (repeatAudit audit) file [] (facts.rules.filter (!isModuleRule ·)) := by
        rw [fileIssues_repeatAudit, hfacts]
      _ = (repeats counted).map (repeatIssue audit file) := hrun
  refine ⟨hfound, ?_, typeName_ne_of_page⟩
  have hcount := length_repeats counted
  rw [hfound, List.length_map]
  omega

theorem third_repeat_reported :
    let audit : Audit := ⟨.atDirectory "/app", "/app", { compile := false },
      .ofEntries "/app" [.file "a.css" (some [1])], []⟩
    let code := ".a \x7b top: 0 \x7d\n" ++ ".a, p  > q \x7b top: 1px \x7d\n" ++ ".a \x7b top: 2px \x7d\n" ++
      ".side-effect-scanner-module-a \x7b top: 0 \x7d\n" ++ "@media print \x7b .a \x7b top: 3px \x7d \x7d\n" ++
      ".a,p>q \x7b top: 4px \x7d\n" ++ ".side-effect-scanner-module-a \x7b top: 0 \x7d .a \x7b top: 5px \x7d"
    let file : SurveyedFile := ⟨⟨"a.css", code, none⟩, .style (extract true code)⟩
    let counted := countedRules audit file (extract true code).rules
    let found := (fileIssues audit file).filter (·.typeName == "duplicate_rule")
    counted.map (·.selectorText) = [".a, p>q", ".a", ".a", ".a, p>q", ".a"] ∧
      found.map (fun issue => (issue.kind.detail, issue.position.map (·.start.line))) =
        [(".a", some 5), (".a, p>q", some 6), (".a", some 7)] ∧
      found.length = counted.length - (counted.map (·.selectorText)).toFinset.card := by
  intro audit code file counted found
  have hfound : counted.map (·.selectorText) = [".a, p>q", ".a", ".a", ".a, p>q", ".a"] ∧
      found.map (fun issue => (issue.kind.detail, issue.position.map (·.start.line))) =
        [(".a", some 5), (".a, p>q", some 6), (".a", some 7)] := by
    -- the sheet is taken apart into its lines, which are faster to evaluate
    simp only [counted, found, file, extract, code, String.toList_append]
    decide +kernel
  exact ⟨hfound.1, hfound.2, (repeated_rules_reported rfl rfl).2.1⟩

end Analysis.Style
end AssetAudit
