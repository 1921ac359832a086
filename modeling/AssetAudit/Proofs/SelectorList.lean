import AssetAudit.Proofs.FlaggedSelector
import AssetAudit.Proofs.SheetFacts
import AssetAudit.Scan
import Mathlib.Data.List.Flatten

/-!
# Selectors that stand in one list

Whether a rule acts outside its module is decided for the rule as a whole, by any one of its selectors,
and what is flagged then is decided for each selector alone. So a rule with a list of selectors and the
rules with one of them each are not flagged alike (`neighbour_decides_flag`). `splitting_flags` says
what splitting a list changes: nothing is flagged anew, and something is no longer flagged exactly if it is
not global itself and stands beside a selector that is.
-/
namespace AssetAudit.Analysis.Style

open AssetAudit.Style (Rule Declaration Facts Gathered extract)
open AssetAudit.Style.Selector (isGlobal isGlobal_false anyGlobal)

/-- The selectors and the declarations of a rule, without its place. -/
def content (rule : Rule) : List String × List Declaration := (rule.selectors, rule.declarations)

def hasModuleMark (selector : String) : Bool := Text.contains moduleMark.toList selector.toList

/-- What is flagged of a rule that is reported. -/
def contentFlags (rules : Rules) (content : List String × List Declaration) : List (String × String) :=
  if anyGlobal rules.excludeGlobalSelectorAfterClass content.1 && !content.1.any hasModuleMark then
    content.1.flatMap (selectorFlags rules content.2)
  else []

/-- Where everything is reported, what the issues of a file flag can be told from its rules alone. -/
theorem flags_of_gathered {audit : Audit} {file : SurveyedFile} {facts : Facts}
    (hstyle : file.style? = some facts)
    (hgathered : Gathered audit.options.rules.excludeGlobalSelectorAfterClass facts)
    (hreported : ∀ place, (audit.reported? file place).isSome) :
    flagsOf (fileIssues audit file) =
      (facts.rules.map content).flatMap (contentFlags audit.options.rules) := by
  rw [flags_fileIssues, hstyle]
  simp only [hgathered.coherent.globalRules_eq, List.filter_filter, List.flatMap_map, flatMap_filter]
  refine List.flatMap_congr fun rule _ => ?_
  rw [ruleFlags, if_pos (hreported rule.location), contentFlags, Bool.and_comm]
  rfl

/-! ## Splitting a list -/

/-- What is flagged of selectors that have a rule each. -/
def splitFlags (rules : Rules) (selectors : List String) (declarations : List Declaration) :
    List (String × String) :=
  selectors.flatMap fun selector =>
    if isGlobal rules.excludeGlobalSelectorAfterClass selector then selectorFlags rules declarations selector
    else []

/-- What is flagged of selectors that share a rule. -/
def listFlags (rules : Rules) (selectors : List String) (declarations : List Declaration) :
    List (String × String) :=
  if anyGlobal rules.excludeGlobalSelectorAfterClass selectors then
    selectors.flatMap (selectorFlags rules declarations)
  else []

section

variable {rules : Rules} {selectors : List String} {declarations : List Declaration}

theorem contentFlags_eq (h : ∀ selector ∈ selectors, hasModuleMark selector = false) :
    contentFlags rules (selectors, declarations) = listFlags rules selectors declarations := by
  have hmark : selectors.any hasModuleMark = false := by
    rw [List.any_eq_false]
    exact fun selector hselector => by simp [h selector hselector]
  rw [contentFlags, listFlags, hmark, Bool.not_false, Bool.and_true]

theorem flatMap_contentFlags (h : ∀ selector ∈ selectors, hasModuleMark selector = false) :
    (selectors.map fun selector => ([selector], declarations)).flatMap (contentFlags rules) =
      splitFlags rules selectors declarations := by
  rw [List.flatMap_map]
  refine List.flatMap_congr fun selector hselector => ?_
  have hmark : ∀ other ∈ [selector], hasModuleMark other = false := by
    intro other hother
    rw [List.mem_singleton.1 hother]
    exact h selector hselector
  rw [contentFlags_eq hmark, listFlags, anyGlobal, List.any_cons, List.any_nil, Bool.or_false,
    List.flatMap_singleton]

theorem splitFlags_sublist : (splitFlags rules selectors declarations).Sublist
    (selectors.flatMap (selectorFlags rules declarations)) := by
  refine List.Sublist.flatMap_right _ fun selector _ => ?_
  split
  · exact .refl _
  · exact List.nil_sublist _

theorem splitFlags_eq_nil (h : anyGlobal rules.excludeGlobalSelectorAfterClass selectors = false) :
    splitFlags rules selectors declarations = [] := by
  rw [splitFlags, List.flatMap_eq_nil_iff]
  intro selector hselector
  exact if_neg (by simpa using List.any_eq_false.1 h selector hselector)

theorem splitFlags_sublist_listFlags : (splitFlags rules selectors declarations).Sublist
    (listFlags rules selectors declarations) := by
  unfold listFlags
  split
  · exact splitFlags_sublist
  · rename_i hnone
    rw [splitFlags_eq_nil (by simpa using hnone)]

/-- Split selectors are flagged as all of them would be exactly if each of them is global that could be
flagged. -/
theorem splitFlags_eq_iff : splitFlags rules selectors declarations =
      selectors.flatMap (selectorFlags rules declarations) ↔
    ∀ selector ∈ selectors, isGlobal rules.excludeGlobalSelectorAfterClass selector = true ∨
      selectorFlags rules declarations selector = [] := by
  constructor
  · intro heq
    induction selectors with
    | nil => rintro _ ⟨⟩
    | cons first rest ih =>
      -- neither the first selector nor the rest can make up for a flag that the other lacks
      have hrest : (splitFlags rules rest declarations).length ≤
          (rest.flatMap (selectorFlags rules declarations)).length := splitFlags_sublist.length_le
      have hlength := congrArg List.length heq
      rw [splitFlags, List.flatMap_cons, List.flatMap_cons, List.length_append, List.length_append,
        ← splitFlags] at hlength
      refine List.forall_mem_cons.2 ⟨?_, ih (splitFlags_sublist.eq_of_length ?_)⟩
      · split at hlength
        · rename_i hglobal
          exact Or.inl hglobal
        · rw [List.length_nil] at hlength
          exact Or.inr (List.eq_nil_of_length_eq_zero (by omega))
      · split at hlength
        · omega
        · rw [List.length_nil] at hlength
          omega
  · intro h
    refine List.flatMap_congr fun selector hselector => ?_
    split
    · rfl
    · rename_i hglobal
      rw [(h selector hselector).resolve_left hglobal]

theorem splitFlags_eq_listFlags_iff :
    splitFlags rules selectors declarations = listFlags rules selectors declarations ↔
      (anyGlobal rules.excludeGlobalSelectorAfterClass selectors = true →
        ∀ selector ∈ selectors, isGlobal rules.excludeGlobalSelectorAfterClass selector = true ∨
          selectorFlags rules declarations selector = []) := by
  unfold listFlags
  split
  · rename_i hany
    rw [splitFlags_eq_iff]
    exact ⟨fun h _ => h, fun h => h hany⟩
  · rename_i hnone
    rw [splitFlags_eq_nil (by simpa using hnone)]
    exact ⟨fun _ hany => absurd hany hnone, fun _ => rfl⟩

end

/-- Two sheets that differ in one rule, which has a list of selectors in the one and is split into rules
with one selector each in the other. What the second one flags is a part of what the first one flags, and
the two flag the same unless a selector that could be flagged, but is not global, stands beside a global
one. Without the exclusion of selectors below a class they always flag the same. -/
theorem splitting_flags (audit : Audit) {joined split : SurveyedFile} {whole parts : Facts}
    {selectors : List String} {declarations : List Declaration}
    {before after : List (List String × List Declaration)}
    (hjoined : joined.style? = some whole) (hsplit : split.style? = some parts)
    (hwhole : Gathered audit.options.rules.excludeGlobalSelectorAfterClass whole)
    (hparts : Gathered audit.options.rules.excludeGlobalSelectorAfterClass parts)
    (hlist : whole.rules.map content = before ++ (selectors, declarations) :: after)
    (hsingle : parts.rules.map content =
      before ++ (selectors.map fun selector => ([selector], declarations)) ++ after)
    (hmodule : ∀ selector ∈ selectors, hasModuleMark selector = false)
    (hreported : ∀ place, (audit.reported? joined place).isSome ∧ (audit.reported? split place).isSome) :
    let rules := audit.options.rules
    let exclude := rules.excludeGlobalSelectorAfterClass
    let flags (file : SurveyedFile) := flagsOf (fileIssues audit file)
    (flags split).Sublist (flags joined) ∧
      ((flags split).Perm (flags joined) ↔
        ((∃ selector ∈ selectors, isGlobal exclude selector = true) →
          ∀ selector ∈ selectors, isGlobal exclude selector = true ∨
            selectorFlags rules declarations selector = [])) ∧
      (exclude = false → flags split = flags joined) := by
  intro rules exclude flags
  have hflags : flags joined = before.flatMap (contentFlags rules) ++
      listFlags rules selectors declarations ++ after.flatMap (contentFlags rules) := by
    have := flags_of_gathered hjoined hwhole fun place => (hreported place).1
    rw [hlist, List.flatMap_append, List.flatMap_cons, contentFlags_eq hmodule, ← List.append_assoc] at this
    exact this
  have hflags' : flags split = before.flatMap (contentFlags rules) ++
      splitFlags rules selectors declarations ++ after.flatMap (contentFlags rules) := by
    have := flags_of_gathered hsplit hparts fun place => (hreported place).2
    rw [hsingle, List.flatMap_append, List.flatMap_append, flatMap_contentFlags hmodule] at this
    exact this
  have hperm : (flags split).Perm (flags joined) ↔
      splitFlags rules selectors declarations = listFlags rules selectors declarations := by
    rw [hflags, hflags', List.perm_append_right_iff, List.perm_append_left_iff]
    exact ⟨fun h => splitFlags_sublist_listFlags.eq_of_length h.length_eq, fun h => h ▸ .refl _⟩
  refine ⟨?_, ?_, ?_⟩
  · rw [hflags, hflags']
    exact ((List.Sublist.refl _).append splitFlags_sublist_listFlags).append (.refl _)
  · rw [hperm, splitFlags_eq_listFlags_iff, anyGlobal, List.any_eq_true]
  · intro hexclude
    rw [hflags, hflags', splitFlags_eq_listFlags_iff.2]
    intro _ selector _
    left
    rw [show rules.excludeGlobalSelectorAfterClass = false from hexclude]
    exact isGlobal_false selector

/-- A file without a source map is reported everywhere if no rule is about it. -/
theorem isSome_reported? {audit : Audit} {file : SurveyedFile} (hmap : file.asset.sourceMap? = none)
    (hfile : audit.filter.ignoresFile file.asset.name = false)
    (hlines : audit.filter.ignoredLines? file.asset.name = none) (place : Location) :
    (audit.reported? file place).isSome := by
  have hends : SourceMap.ends? file.asset place = none := by
    unfold SourceMap.ends?
    rw [hmap]
    split <;> rfl
  have horigin : audit.origin file place = SourceMap.fallback audit.options file.asset (some place) := by
    rw [Audit.origin, SourceMap.locate, hends]
  have hline : ∀ line, audit.filter.ignoresLine file.asset.name line = false := by
    intro line
    rw [IgnoreFilter.ignoresLine, hlines]
    rfl
  have hsources : SourceMap.sourcesOf file.asset.sourceMap? = [] := by
    rw [hmap]
    rfl
  -- the place counts as one of the file itself, or as one of an unknown source
  have hsource : SourceMap.fallbackSource audit.options file.asset = file.asset.name ∨
      SourceMap.isKnown (SourceMap.fallbackSource audit.options file.asset) = false := by
    unfold SourceMap.fallbackSource
    split
    · exact Or.inl rfl
    · exact Or.inr (by decide)
  have hignores : audit.filter.ignores file.asset (audit.origin file place).line?
      (some (audit.origin file place).source) = false := by
    rw [horigin]
    unfold IgnoreFilter.ignores
    cases hknown : SourceMap.isKnown (SourceMap.fallbackSource audit.options file.asset) with
    | true =>
      have hname := hsource.resolve_right (by simp [hknown])
      simp [SourceMap.fallback, SourceMap.Origin.line?, Option.filter, hname ▸ hknown, hname, hfile, hline]
    | false => simp [SourceMap.fallback, Option.filter, hknown, hfile, hline, hsources]
  rw [Audit.reported?, if_neg (by simp [hignores])]
  rfl

theorem split_headings_flagged_alike :
    let audit : Audit := ⟨.atDirectory "/app", "/app", {}, .ofEntries "/app" [], []⟩
    let file (code : String) : SurveyedFile := ⟨⟨"a.css", code, none⟩, .style (extract true code)⟩
    let joined := file "p \x7b top: 0 \x7d h1, .card p, body \x7b margin: 0 \x7d"
    let split := file
      "p \x7b top: 0 \x7d h1 \x7b margin: 0 \x7d .card p \x7b margin: 0 \x7d body \x7b margin: 0 \x7d"
    flagsOf (fileIssues audit joined) = [("global_selector", "p"), ("global_selector", "h1"),
        ("critical_global_style", "body"), ("global_selector", "body")] ∧
      (flagsOf (fileIssues audit split)).Perm (flagsOf (fileIssues audit joined)) := by
  intro audit file joined split
  have hfile : audit.filter.ignoresFile "a.css" = false := by decide +kernel
  have hlines : audit.filter.ignoredLines? "a.css" = none := by decide +kernel
  have hreported : ∀ code place, (audit.reported? (file code) place).isSome :=
    fun code => isSome_reported? rfl hfile hlines
  have hsplitting := @splitting_flags audit joined split _ _ ["h1", ".card p", "body"]
    [⟨"margin", "0", false⟩] [(["p"], [⟨"top", "0", false⟩])] [] rfl rfl (.sheet _) (.sheet _)
    (by decide +kernel) (by decide +kernel) (by decide +kernel)
    fun place => ⟨hreported _ place, hreported _ place⟩
  exact ⟨by decide +kernel, hsplitting.2.1.2 (by decide +kernel)⟩

theorem neighbour_decides_flag :
    let scan (code : String) := (Scan.ofAssets (.atDirectory "/app") "/app"
      { rules := Rules.set {} .excludeGlobalSelectorAfterClass true } ""
      ⟨[], [⟨"a.css", code, none⟩], []⟩).toOption.map fun report => flagsOf report.results.styles
    scan "h1, .card body, div .a p \x7b margin: 0 \x7d" = some [("global_selector", "h1"),
        ("critical_global_style", ".card body"), ("global_selector", "div .a p")] ∧
      scan "h1 \x7b margin: 0 \x7d .card body \x7b margin: 0 \x7d div .a p \x7b margin: 0 \x7d" =
        some [("global_selector", "h1")] := by
  constructor <;> decide +kernel

end AssetAudit.Analysis.Style
