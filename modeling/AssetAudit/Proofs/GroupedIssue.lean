import AssetAudit.Proofs.EmittedIssue
import AssetAudit.Proofs.FileOrder
import Mathlib.Data.List.Induction
import Mathlib.Data.List.Perm.Basic

/-!
# Grouped issues

The groups of a report hold the issues that have a source, of those with the same file and message the
first one (`Results.distinct`), and hold each of them once: in the group of its source, under its file
and in the list it comes from.

Groups are filled one issue at a time. `Grouping.Holds` says what they hold after some issues;
`Holds.add` is the step that puts one more in, `Holds.run` the loop. The loop goes by digests:
where those of different issues differ (`DigestsApart`), what it puts in are the distinct issues
(`kept_eq_distinct`).

Main statement: `grouping_partitions`.
-/
namespace AssetAudit

/-! ## First occurrences -/

theorem length_filter_lt {α : Type} (keep : α → Bool) (a : α) (items : List α) :
    (items.filter keep).length < (a :: items).length :=
  Nat.lt_succ_of_le (List.length_filter_le keep items)

/-- Relations that agree on a list keep the same items of it. -/
theorem eraseDupsBy_congr {α : Type} {r s : α → α → Bool} : ∀ items : List α,
    (∀ a ∈ items, ∀ b ∈ items, r a b = s a b) → items.eraseDupsBy r = items.eraseDupsBy s
  | [], _ => rfl
  | a :: items, h => by
    have hfilter : (items.filter fun b => r b a = false) = items.filter fun b => s b a = false := by
      refine List.filter_congr fun b hb => ?_
      rw [h b (List.mem_cons_of_mem _ hb) a List.mem_cons_self]
    have hrest := eraseDupsBy_congr (items.filter fun b => s b a = false) fun b hb c hc =>
      h b (List.mem_cons_of_mem _ (List.mem_filter.1 hb).1) c
        (List.mem_cons_of_mem _ (List.mem_filter.1 hc).1)
    rw [List.eraseDupsBy_cons, List.eraseDupsBy_cons, hfilter, hrest]
termination_by items => items.length
decreasing_by exact length_filter_lt _ a items

/-- Of the items with one key, one is kept. -/
theorem countP_eraseDupsBy {α : Type} (key : α → String) : ∀ (items : List α) (k : String),
    (items.eraseDupsBy fun a b => key a == key b).countP (key · == k) =
      if ∃ a ∈ items, key a = k then 1 else 0
  | [], k => by simp
  | a :: items, k => by
    have hrest := countP_eraseDupsBy key (items.filter fun b => (key b == key a) = false) k
    rw [List.eraseDupsBy_cons, List.countP_cons, hrest]
    by_cases ha : key a = k
    · simp [ha]
    · have hothers : (∃ b ∈ items.filter (fun b => (key b == key a) = false), key b = k) ↔
          ∃ b ∈ a :: items, key b = k := by
        constructor
        · rintro ⟨b, hb, hk⟩
          exact ⟨b, List.mem_cons_of_mem _ (List.mem_filter.1 hb).1, hk⟩
        · rintro ⟨b, hb, hk⟩
          rcases List.mem_cons.1 hb with rfl | hb
          · exact absurd hk ha
          · exact ⟨b, List.mem_filter.2 ⟨hb, by simpa [hk] using Ne.symm ha⟩, hk⟩
      rw [if_congr hothers rfl rfl]
      simp [ha]
termination_by items => items.length
decreasing_by exact length_filter_lt _ a items

theorem eraseDupsBy_subset {α : Type} (r : α → α → Bool) : ∀ items : List α,
    items.eraseDupsBy r ⊆ items
  | [] => List.Subset.refl _
  | a :: items => by
    have hrest := eraseDupsBy_subset r (items.filter fun b => r b a = false)
    rw [List.eraseDupsBy_cons]
    exact List.cons_subset_cons a (List.Subset.trans hrest (List.filter_subset_self _))
termination_by items => items.length
decreasing_by exact length_filter_lt _ a items

/-! ## What is to be grouped -/

namespace Results

/-- The issues that have a source, each with its list. -/
def sourced (results : Results) : List (Category × Issue) :=
  results.entries.filter (·.2.source.isSome)

/-- Of the issues that have a source, the first with each file and message. -/
def distinct (results : Results) : List (Category × Issue) :=
  results.sourced.eraseDupsBy fun a b => a.2.key == b.2.key

/-- Whether digests tell the issues that have a source apart. -/
def DigestsApart (results : Results) : Prop :=
  ∀ a ∈ results.sourced, ∀ b ∈ results.sourced, a.2.digest = b.2.digest → a.2.key = b.2.key

instance (results : Results) : Decidable results.DigestsApart :=
  inferInstanceAs (Decidable (∀ a ∈ results.sourced, ∀ b ∈ results.sourced, _ → _))

/-- The lists that issues make when they are added one after the other. -/
def ofEntries (entries : List (Category × Issue)) : Results :=
  entries.foldl (fun results entry => results.add entry.1 entry.2) {}

/-- The lists of issues, nothing if there are none. -/
def ofEntries? (entries : List (Category × Issue)) : Option Results :=
  if entries.isEmpty then none else some (ofEntries entries)

theorem get_add (results : Results) (category other : Category) (issue : Issue) :
    (results.add category issue).get other =
      results.get other ++ if category = other then [issue] else [] := by
  cases category <;> cases other <;> simp [add, get]

theorem get_ofEntries (entries : List (Category × Issue)) (category : Category) :
    (ofEntries entries).get category = (entries.filter (·.1 == category)).map (·.2) := by
  induction entries using List.reverseRecOn with
  | nil => cases category <;> rfl
  | append_singleton entries entry ih =>
    rw [ofEntries, List.foldl_concat, ← ofEntries, get_add, ih, List.filter_append, List.map_append]
    by_cases h : entry.1 = category <;> simp [h]

theorem entries_add (results : Results) (category : Category) (issue : Issue) :
    (results.add category issue).entries.Perm ((category, issue) :: results.entries) := by
  rw [List.perm_iff_count]
  intro entry
  cases category <;>
    simp only [entries, Category.all, List.flatMap_cons, List.flatMap_nil, get, add, List.map_append,
      List.map_cons, List.map_nil, List.count_append, List.count_cons, List.count_nil] <;>
    omega

end Results

/-! ## What groups hold -/

namespace Groups

/-- The results of a file in a group, if it has any there. -/
def at? (groups : Groups) (group : SourceGroup) (file : String) : Option Results :=
  (groups.get group).lookup file

/-- The issues of a file in a list of a group. -/
def listed (groups : Groups) (group : SourceGroup) (file : String) (category : Category) :
    List Issue :=
  ((groups.at? group file).getD {}).get category

/-- All issues in the groups, each with its list. -/
def entries (groups : Groups) : List (Category × Issue) :=
  SourceGroup.all.flatMap fun group => (groups.get group).flatMap (·.2.entries)

theorem get_update (groups : Groups) (group other : SourceGroup)
    (change : FileResults → FileResults) :
    (groups.update group change).get other =
      if other = group then change (groups.get other) else groups.get other := by
  cases group <;> cases other <;> rfl

theorem flatMap_updateFile (file : String) (category : Category) (issue : Issue) (files : FileResults) :
    ((updateFile file (·.add category issue) files).flatMap (·.2.entries)).Perm
      ((category, issue) :: files.flatMap (·.2.entries)) := by
  have hnew : ((({} : Results).add category issue).entries) = [(category, issue)] := by
    cases category <;> rfl
  induction files with
  | nil => simp [updateFile, hnew]
  | cons head rest ih =>
    obtain ⟨other, results⟩ := head
    rw [updateFile]
    split
    · simp only [List.flatMap_cons]
      exact (results.entries_add category issue).append_right _
    · split
      · simp [hnew]
      · simp only [List.flatMap_cons]
        exact (ih.append_left _).trans List.perm_middle

theorem entries_update (groups : Groups) (group : SourceGroup) (file : String) (category : Category)
    (issue : Issue) :
    (groups.update group (updateFile file (·.add category issue))).entries.Perm
      ((category, issue) :: groups.entries) := by
  rw [List.perm_iff_count]
  intro entry
  have hcount := fun files => (flatMap_updateFile file category issue files).count_eq entry
  simp only [List.count_cons] at hcount
  cases group <;>
    simp only [entries, SourceGroup.all, List.flatMap_cons, List.flatMap_nil, get, update,
      List.count_append, List.count_cons, List.count_nil, hcount] <;>
    omega

end Groups

/-- Whether an issue belongs in a group and under a file. -/
def isFiledIn (root unknownDir : String) (group : SourceGroup) (file : String)
    (entry : Category × Issue) : Bool :=
  entry.2.file == file && entry.2.source.any (SourceGroup.classify root unknownDir · == group)

namespace Grouping

/-- Whether groups hold just the given issues: each file that has some holds them in their order. -/
structure Holds (root unknownDir : String) (entries : List (Category × Issue)) (groups : Groups) :
    Prop where
  ordered : ∀ group, Ordered (groups.get group)
  found : ∀ group file, groups.at? group file =
    Results.ofEntries? (entries.filter (isFiledIn root unknownDir group file))
  perm : groups.entries.Perm entries

variable {root unknownDir : String} {entries : List (Category × Issue)} {groups : Groups}

theorem holds_empty : Holds root unknownDir [] {} where
  ordered group := by cases group <;> exact List.Pairwise.nil
  found group file := by cases group <;> rfl
  perm := .refl _

/-- One more issue in the group of its source. -/
theorem Holds.add (h : Holds root unknownDir entries groups) {entry : Category × Issue}
    {source : String} (hsource : entry.2.source = some source) :
    Holds root unknownDir (entries ++ [entry])
      (groups.update (SourceGroup.classify root unknownDir source)
        (updateFile entry.2.file (·.add entry.1 entry.2))) where
  ordered group := by
    rw [Groups.get_update]
    split
    · exact (h.ordered group).updateFile
    · exact h.ordered group
  found group file := by
    have hold := h.found group file
    unfold Groups.at? at hold ⊢
    rw [Groups.get_update]
    simp only [List.filter_append]
    by_cases hfiled : isFiledIn root unknownDir group file entry = true
    · -- the issue goes here, behind what is here already
      obtain ⟨hfile, hgroup⟩ : entry.2.file = file ∧
          SourceGroup.classify root unknownDir source = group := by
        simpa [isFiledIn, hsource] using hfiled
      rw [if_pos hgroup.symm, (h.ordered group).lookup_updateFile, hfile, if_pos rfl, hold]
      cases hentries : entries.filter (isFiledIn root unknownDir group file) with
      | nil => simp [hfiled, Results.ofEntries?, Results.ofEntries]
      | cons first rest => simp [hfiled, Results.ofEntries?, Results.ofEntries]
    · rw [List.filter_cons_of_neg hfiled, List.filter_nil, List.append_nil, ← hold]
      split
      · rename_i hgroup
        rw [(h.ordered group).lookup_updateFile, if_neg]
        rintro rfl
        exact hfiled (by simp [isFiledIn, hsource, hgroup])
      · rfl
  perm := (groups.entries_update _ _ _ _).trans ((h.perm.cons _).trans
    (List.perm_append_singleton entry entries).symm)

theorem Holds.listed_eq (h : Holds root unknownDir entries groups) (group : SourceGroup) (file : String)
    (category : Category) :
    groups.listed group file category = (entries.filter fun entry =>
      entry.1 == category && isFiledIn root unknownDir group file entry).map (·.2) := by
  rw [Groups.listed, h.found, ← List.filter_filter, Results.ofEntries?]
  split
  · rename_i hnone
    rw [List.isEmpty_iff.1 hnone]
    cases category <;> rfl
  · exact Results.get_ofEntries _ category

/-- A file stands in a group only if it has an issue there. -/
theorem Holds.isSome_at?_iff (h : Holds root unknownDir entries groups) (group : SourceGroup)
    (file : String) :
    (groups.at? group file).isSome ↔ ∃ category, groups.listed group file category ≠ [] := by
  unfold Groups.listed
  rw [h.found]
  cases entries.filter (isFiledIn root unknownDir group file) with
  | nil =>
    refine ⟨fun hsome => absurd hsome Bool.false_ne_true, ?_⟩
    rintro ⟨category, hne⟩
    cases category <;> exact absurd rfl hne
  | cons entry rest =>
    refine ⟨fun _ => ⟨entry.1, ?_⟩, fun _ => rfl⟩
    show (Results.ofEntries (entry :: rest)).get entry.1 ≠ []
    rw [Results.get_ofEntries]
    simp

/-- The issues that are put in when digests were seen before. -/
def kept (seen : List String) (entries : List (Category × Issue)) : List (Category × Issue) :=
  (entries.filter fun entry => entry.2.source.isSome && !seen.contains entry.2.digest).eraseDupsBy
    fun a b => a.2.digest == b.2.digest

/-- What is done with one issue: it is passed over, or it is put in and its digest remembered. -/
theorem add_cases (root unknownDir : String) (grouping : Grouping) (entry : Category × Issue) :
    (grouping.add root unknownDir entry = grouping ∧
      ∀ rest, kept grouping.seen (entry :: rest) = kept grouping.seen rest) ∨
    ∃ source, entry.2.source = some source ∧
      grouping.add root unknownDir entry =
        ⟨entry.2.digest :: grouping.seen,
          grouping.groups.update (SourceGroup.classify root unknownDir source)
            (updateFile entry.2.file (·.add entry.1 entry.2))⟩ ∧
      ∀ rest, kept grouping.seen (entry :: rest) =
        entry :: kept (entry.2.digest :: grouping.seen) rest := by
  cases hsource : entry.2.source with
  | none =>
    refine Or.inl ⟨?_, fun rest => ?_⟩
    · simp [Grouping.add, hsource]
    · simp [kept, hsource]
  | some source =>
    by_cases hseen : entry.2.digest ∈ grouping.seen
    · refine Or.inl ⟨?_, fun rest => ?_⟩
      · simp [Grouping.add, hsource, hseen]
      · simp [kept, hsource, hseen]
    · refine Or.inr ⟨source, rfl, ?_, fun rest => ?_⟩
      · simp [Grouping.add, hsource, hseen]
      · -- what has this digest is dropped from the rest, as if the digest had been seen
        unfold kept
        rw [List.filter_cons_of_pos (by simp [hsource, hseen]), List.eraseDupsBy_cons,
          List.filter_filter]
        have hfilter := List.filter_congr fun other (_ : other ∈ rest) =>
          show (decide ((other.2.digest == entry.2.digest) = false) &&
              (other.2.source.isSome && !grouping.seen.contains other.2.digest)) =
            (other.2.source.isSome && !(entry.2.digest :: grouping.seen).contains other.2.digest) by
            by_cases hsame : other.2.digest = entry.2.digest <;> simp [hsame]
        rw [hfilter]

/-- The loop: what is put in comes behind what was held before. -/
theorem Holds.run (rest : List (Category × Issue)) : ∀ (grouping : Grouping)
    (entries : List (Category × Issue)), Holds root unknownDir entries grouping.groups →
    Holds root unknownDir (entries ++ kept grouping.seen rest)
      (rest.foldl (Grouping.add root unknownDir) grouping).groups := by
  induction rest with
  | nil =>
    intro grouping entries h
    simpa [kept] using h
  | cons entry rest ih =>
    intro grouping entries h
    rw [List.foldl_cons]
    rcases add_cases root unknownDir grouping entry with
      ⟨hadd, hkept⟩ | ⟨source, hsource, hadd, hkept⟩
    · rw [hadd, hkept]
      exact ih grouping entries h
    · rw [hadd, hkept, List.append_cons]
      exact ih ⟨entry.2.digest :: grouping.seen, _⟩ _ (h.add hsource)

theorem kept_eq_distinct {results : Results} (h : results.DigestsApart) :
    kept [] results.entries = results.distinct := by
  have hsourced : (results.entries.filter fun entry =>
      entry.2.source.isSome && !([] : List String).contains entry.2.digest) = results.sourced :=
    List.filter_congr fun entry _ => by simp
  rw [kept, hsourced]
  refine eraseDupsBy_congr results.sourced fun a ha b hb => ?_
  have hiff : a.2.digest = b.2.digest ↔ a.2.key = b.2.key :=
    ⟨h a ha b hb, fun hkey => congrArg Text.sha256 hkey⟩
  rw [Bool.eq_iff_iff, beq_iff_eq, beq_iff_eq]
  exact hiff

/-- The groups of results hold their distinct issues. -/
theorem holds_ofResults (root unknownDir : String) {results : Results} (h : results.DigestsApart) :
    Holds root unknownDir results.distinct (.ofResults root unknownDir results) := by
  rw [← kept_eq_distinct h, Groups.ofResults]
  exact Holds.run results.entries {} [] holds_empty

end Grouping

/-! ## Scans -/

theorem ofAssets_eq_ok {disk : Disk} {root : String} {options : Options} {scannedAt : String}
    {assets : AssetMap} {report : Report}
    (h : Scan.ofAssets disk root options scannedAt assets = .ok report) :
    let filter := IgnoreFilter.ofEntries root options.ignored
    report.results = Scan.resultsOf disk root options filter (Survey.ofAssets options filter assets) ∧
      report.groups = .ofResults root options.unknownDir report.results := by
  unfold Scan.ofAssets at h
  simp only at h
  split at h
  · cases h
  · cases h
    exact ⟨rfl, rfl⟩

/-- Every issue of a scan has come about in one of its files. -/
theorem exists_arises {disk : Disk} {root : String} {options : Options} {scannedAt : String}
    {assets : AssetMap} {report : Report}
    (h : Scan.ofAssets disk root options scannedAt assets = .ok report) {category : Category}
    {issue : Issue} (hissue : issue ∈ report.results.get category) :
    let filter := IgnoreFilter.ofEntries root options.ignored
    ∃ audit, ∃ file ∈ (Survey.ofAssets options filter assets).files, Arises audit file issue := by
  rw [(ofAssets_eq_ok h).1] at hissue
  obtain ⟨file, hfile, hemitted⟩ := exists_emitted hissue
  exact ⟨_, file, hfile, arises_of_emitted category issue hemitted⟩

theorem mem_entries {results : Results} {category : Category} {issue : Issue} :
    (category, issue) ∈ results.entries ↔ issue ∈ results.get category := by
  cases category <;> simp [Results.entries, Category.all]

/-- Where digests tell issues apart, an issue that has a source has one representative in the groups. -/
theorem countP_entries (root unknownDir : String) {results : Results} (h : results.DigestsApart)
    {category : Category} {issue : Issue} (hissue : issue ∈ results.get category)
    (hsource : issue.source.isSome) :
    (Groups.ofResults root unknownDir results).entries.countP (·.2.key == issue.key) = 1 := by
  have hsourced : (category, issue) ∈ results.sourced :=
    List.mem_filter.2 ⟨mem_entries.2 hissue, hsource⟩
  rw [(Grouping.holds_ofResults root unknownDir h).perm.countP_eq]
  have hcount := countP_eraseDupsBy (fun entry : Category × Issue => entry.2.key) results.sourced issue.key
  rw [if_pos ⟨(category, issue), hsourced, rfl⟩] at hcount
  exact hcount

/-- The groups of results are a partition of their distinct issues, provided that digests tell issues
apart: under a file of a group stand, list by list and in order, the issues of that file whose source
is classified so, and a file stands there, once, only if it has some. Every issue of a scan has a
source, and so just one issue with its file and message is in the groups. -/
theorem grouping_partitions (root unknownDir : String) (results : Results) :
    let groups := Groups.ofResults root unknownDir results
    (results.DigestsApart →
      (∀ group file category, groups.listed group file category =
        (results.distinct.filter fun entry => entry.1 == category && (entry.2.file == file &&
          entry.2.source.any (SourceGroup.classify root unknownDir · == group))).map (·.2)) ∧
      ∀ group, ((groups.get group).map (·.1)).Nodup ∧
        ∀ file, (groups.at? group file).isSome ↔
          ∃ category, groups.listed group file category ≠ []) ∧
    ∀ disk options scannedAt assets report,
      Scan.ofAssets disk root options scannedAt assets = .ok report →
      ∀ category, ∀ issue ∈ report.results.get category, issue.source.isSome ∧
        (report.results.DigestsApart →
          report.groups.entries.countP (·.2.key == issue.key) = 1) := by
  intro groups
  refine ⟨fun hapart => ?_, ?_⟩
  · have hholds : Grouping.Holds root unknownDir results.distinct groups :=
      Grouping.holds_ofResults root unknownDir hapart
    exact ⟨hholds.listed_eq, fun group => ⟨(hholds.ordered group).nodup, hholds.isSome_at?_iff group⟩⟩
  · intro disk options scannedAt assets report hscan category issue hissue
    obtain ⟨audit, file, -, harises⟩ := exists_arises hscan hissue
    refine ⟨harises.source, fun hapart => ?_⟩
    rw [(ofAssets_eq_ok hscan).2]
    exact countP_entries root options.unknownDir hapart hissue harises.source

theorem app_issues_grouped :
    let issue (file message : String) (source : Option String) : Issue :=
      { kind := .globalVarDeclaration "x" "assignment", severity := .warning, message, file, source }
    let x := issue "src/app.ts" "global x" (some "src/app.ts")
    let y := issue "vendor.js" "global y" (some "node_modules/lib/vendor.js")
    let results : Results := { globals := [x, y, x, issue "src/app.ts" "no source" none] }
    let groups := Groups.ofResults "/project" "dist" results
    let scan := Scan.ofAssets (.atDirectory "/project") "/project" { compile := false } ""
      ⟨[⟨"a.js", "window.a = 1;", none⟩], [], []⟩
    results.DigestsApart ∧
      groups.listed .source "src/app.ts" .globals = [x] ∧
      groups.listed .nodeModules "vendor.js" .globals = [y] ∧
      groups.at? .source "vendor.js" = none ∧
      ∃ report, scan = .ok report ∧ report.results.DigestsApart ∧
        ∃ issue ∈ report.results.globals, issue.source.isSome ∧
          report.groups.entries.countP (·.2.key == issue.key) = 1 := by
  intro issue x y results groups scan
  have hapart : results.DigestsApart := by decide +kernel
  obtain ⟨hpartition, hscan⟩ := grouping_partitions "/project" "dist" results
  obtain ⟨hlisted, hfiles⟩ := hpartition hapart
  have hissue : scan.toOption.any fun report =>
      decide report.results.DigestsApart && !report.results.globals.isEmpty := by decide +kernel
  refine ⟨hapart, (hlisted .source "src/app.ts" .globals).trans (by decide +kernel),
    (hlisted .nodeModules "vendor.js" .globals).trans (by decide +kernel), ?_, ?_⟩
  · have hnone : ∀ category, groups.listed .source "vendor.js" category = [] := fun category => by
      rw [hlisted]
      cases category <;> decide +kernel
    rw [← Option.not_isSome_iff_eq_none, (hfiles .source).2]
    exact fun ⟨category, hne⟩ => hne (hnone category)
  · obtain ⟨report, hresult, hfound⟩ := exists_ok_of_any hissue
    simp only [Bool.and_eq_true, decide_eq_true_eq, Bool.not_eq_true',
      List.isEmpty_eq_false_iff_exists_mem] at hfound
    obtain ⟨hreportApart, issue, hmem⟩ := hfound
    obtain ⟨hsource, hone⟩ := hscan _ _ _ _ report hresult .globals issue hmem
    exact ⟨report, hresult, hreportApart, issue, hmem, hsource, hone hreportApart⟩

end AssetAudit
