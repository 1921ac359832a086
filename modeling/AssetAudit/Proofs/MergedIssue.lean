import AssetAudit.Proofs.ArgumentText
import AssetAudit.Proofs.GroupedIssue
import Mathlib.Data.List.Infix

/-!
# Merged issues

The groups of a report know an issue by its file and its message, written as one text. What issues with
the same text have in common:

* the file and the message, if no file name holds the character that stands between them (`key_inj`);
* the type, but for operations on elements, whose messages start with code (`typeName_inj`). Besides each
  other, these share messages only with critical global styles (`isCritical_of_isOperation`). Other messages
  end in a different way, but for declarations, and what stands before a space of a declaration is no
  expression of a script (`important_ne_operation`);
* the source, if both are filed under it (`Arises.source_of_isPinned`). Issues in parts of pages
  are all filed under one name, and those whose source is not known under their asset.

Main statement: `merged_issues_agree`. What is lost where files, types or sources are not so is shown by
`merging_loses_origins`.
-/
namespace AssetAudit

/-! ## Keys -/

/-- Texts around a separator can be told from the whole if the first has no bar. -/
theorem file_of_separated {file file' message message' : List Char} (h : '|' ∉ file) (h' : '|' ∉ file')
    (hkey : file ++ ' ' :: '|' :: ' ' :: message = file' ++ ' ' :: '|' :: ' ' :: message') :
    file = file' := by
  -- what one file is longer by would start with the separator, and so hold the bar
  have hmore : ∀ {more text text' : List Char},
      ' ' :: '|' :: text = more ++ ' ' :: '|' :: text' → '|' ∉ more → more = [] := by
    intro more text text' heq hbar
    match more with
    | [] => rfl
    | [c] => simp at heq
    | c :: d :: rest =>
      obtain ⟨-, rfl, -⟩ : ' ' = c ∧ '|' = d ∧ text = rest ++ ' ' :: '|' :: text' := by simpa using heq
      simp at hbar
  rcases List.append_eq_append_iff.1 hkey with ⟨more, rfl, heq⟩ | ⟨more, rfl, heq⟩
  · rw [hmore heq fun hmem => h' (List.mem_append_right _ hmem), List.append_nil]
  · rw [hmore heq fun hmem => h (List.mem_append_right _ hmem), List.append_nil]

theorem key_inj {issue other : Issue} (h : '|' ∉ issue.file.toList) (h' : '|' ∉ other.file.toList)
    (hkey : issue.key = other.key) : issue.file = other.file ∧ issue.message = other.message := by
  have hchars : issue.file.toList ++ ' ' :: '|' :: ' ' :: issue.message.toList =
      other.file.toList ++ ' ' :: '|' :: ' ' :: other.message.toList := by
    simpa [Issue.key] using congrArg String.toList hkey
  have hfile := file_of_separated h h' hchars
  rw [hfile] at hchars
  exact ⟨String.toList_inj.1 hfile, String.toList_inj.1 (by simpa using hchars)⟩

/-! ## Types -/

namespace IssueKind

/-- Whether an issue is about an operation on an element. -/
def isOperation : IssueKind → Bool
  | dynamicElementAppend .. | dynamicElementInsert .. | dynamicElementRemove .. => true
  | _ => false

/-- Whether an issue is about a style of the whole document. -/
def isCritical : IssueKind → Bool
  | criticalGlobalStyle .. => true
  | _ => false

/-- Only messages that end with the text of a style sheet can end as those of operations do. -/
theorem isCritical_or_eq_important {kind : IssueKind} (h : kind.isOperation = false)
    (hends : kind.frame.2.toList <:+ " at runtime".toList ∨ " at runtime".toList <:+ kind.frame.2.toList) :
    kind.isCritical = true ∨ ∃ selectors property, kind = importantDeclaration selectors property := by
  cases kind with
  | criticalGlobalStyle => exact .inl rfl
  | importantDeclaration selectors property => exact .inr ⟨selectors, property, rfl⟩
  | dynamicElementAppend | dynamicElementInsert | dynamicElementRemove => cases h
  | _ => exact absurd hends (by simp only [frame]; decide)

/-- The types of issues other than operations, with how their messages start and end. -/
def frames : List (String × String × String) :=
  [globalSelector "", criticalGlobalStyle "" [], complexSelector "" 0, importantDeclaration "" "",
    globalImportantDeclaration "" "" "", duplicateRule "", globalStyleSideEffect "" "" "",
    globalVarDeclaration "" "", builtInOverride "", unremovedEventListener "" "",
    anonymousEventHandler "" "", inlineEventHandler "" "", untrackedDynamicElement "" ""].map
    fun kind => (kind.typeName, kind.frame)

theorem mem_frames {kind : IssueKind} (h : kind.isOperation = false) :
    (kind.typeName, kind.frame) ∈ frames := by
  cases kind <;> first | contradiction | simp [frames, typeName, frame]

/-- Messages that start alike and end alike have the same type. -/
theorem frames_apart : ∀ a ∈ frames, ∀ b ∈ frames, ∀ lead ∈ messageLeads, ∀ lead' ∈ messageLeads,
    let start := lead.toList ++ a.2.1.toList
    let start' := lead'.toList ++ b.2.1.toList
    (start <+: start' ∨ start' <+: start) →
    (a.2.2.toList <:+ b.2.2.toList ∨ b.2.2.toList <:+ a.2.2.toList) → a.1 = b.1 := by
  -- few messages end alike, so the leads are looked at for these only
  have hapart : ∀ a ∈ frames, ∀ b ∈ frames, a.1 ≠ b.1 →
      (a.2.2.toList <:+ b.2.2.toList ∨ b.2.2.toList <:+ a.2.2.toList) →
      ∀ lead ∈ messageLeads, ∀ lead' ∈ messageLeads,
        ¬ (lead.toList ++ a.2.1.toList <+: lead'.toList ++ b.2.1.toList ∨
          lead'.toList ++ b.2.1.toList <+: lead.toList ++ a.2.1.toList) := by
    decide
  intro a ha b hb lead hlead lead' hlead' start start' hstarts hends
  by_cases hsame : a.1 = b.1
  · exact hsame
  · exact absurd hstarts (hapart a ha b hb hsame hends lead hlead lead' hlead')

end IssueKind

/-- The text that a message starts with, and the one that it ends with. -/
theorem Arises.exists_middle {audit : Audit} {file : SurveyedFile} {issue : Issue}
    (h : Arises audit file issue) : ∃ lead ∈ messageLeads, ∃ middle, issue.message.toList =
      lead.toList ++ issue.kind.frame.1.toList ++ (middle ++ issue.kind.frame.2.toList) := by
  obtain ⟨lead, hlead, text, ⟨⟨middle, htext⟩, -⟩, hissue, -⟩ := h.message
  exact ⟨lead, hlead, middle.toList, by simp [hissue, htext]⟩

/-- Issues other than operations that have the same message have the same type. -/
theorem typeName_inj {audit audit' : Audit} {file file' : SurveyedFile} {issue other : Issue}
    (h : Arises audit file issue) (h' : Arises audit' file' other)
    (hkind : issue.kind.isOperation = false) (hkind' : other.kind.isOperation = false)
    (hmessage : issue.message = other.message) : issue.typeName = other.typeName := by
  obtain ⟨lead, hlead, middle, hwhole⟩ := h.exists_middle
  obtain ⟨lead', hlead', middle', hwhole'⟩ := h'.exists_middle
  rw [← hmessage] at hwhole'
  refine IssueKind.frames_apart _ (IssueKind.mem_frames hkind) _ (IssueKind.mem_frames hkind')
    lead hlead lead' hlead' ?_ ?_
  · exact List.prefix_or_prefix_of_prefix ⟨_, hwhole.symm⟩ ⟨_, hwhole'.symm⟩
  · rw [← List.append_assoc] at hwhole hwhole'
    exact List.suffix_or_suffix_of_suffix ⟨_, hwhole.symm⟩ ⟨_, hwhole'.symm⟩

/-! ## Operations and declarations -/

/-- No expression followed by a verb reads like a declaration: the verb would have to stand behind a space of
the declaration, and what is before it is no expression. -/
theorem important_ne_operation {element property value rest : List Char}
    (helement : Script.isSheltered element = true) (hproperty : Style.isGuarded property = true) :
    "!important used on ".toList ++ (property ++ ':' :: value) ≠
      element ++ ' ' :: 'i' :: 's' :: ' ' :: rest := by
  intro heq
  rcases List.append_eq_append_iff.1 heq with ⟨more, rfl, hdeclared⟩ | ⟨more, hfront, hverb⟩
  · have hmore : Script.isSheltered more = true := helement
    exact absurd hmore (Bool.eq_false_iff.1 (Style.isSheltered_of_declared hproperty hdeclared))
  · -- no verb stands within the words before the declaration
    have hwords : ∀ word ∈ "!important used on ".toList.tails, word.take 2 ≠ [' ', 'i'] := by decide
    match more, hwords more ((List.mem_tails _ _).2 ⟨element, hfront.symm⟩) with
    | [], _ =>
      have hnone : Script.isSheltered [] = false := Style.isSheltered_of_declared hproperty hverb.symm
      cases hnone
    | [c], _ =>
      obtain ⟨-, hverb⟩ := List.cons.inj hverb
      have hverb' : Script.isSheltered ['i', 's'] = false := Style.isSheltered_of_declared hproperty hverb.symm
      cases hverb'
    | c :: d :: more, hword =>
      obtain ⟨rfl, rfl, -⟩ : ' ' = c ∧ 'i' = d ∧ 's' :: ' ' :: rest = more ++ (property ++ ':' :: value) := by
        simpa using hverb
      simp at hword

/-- The message of an operation starts with an element as a script names it. -/
theorem SurveyedFile.Quotes.exists_element {file : SurveyedFile} {message : String} {kind : IssueKind}
    (h : file.Quotes message kind) (hkind : kind.isOperation = true)
    (hnames : ∀ facts, file.script? = some facts → facts.NamesElements) :
    ∃ element rest : String, message = element ++ " is " ++ rest ∧
      Script.isSheltered element.toList = true := by
  cases kind with
  | dynamicElementAppend | dynamicElementInsert | dynamicElementRemove =>
    obtain ⟨⟨rest, hmessage⟩, facts, hfacts, o, ho, rfl⟩ := h
    exact ⟨o.element, rest, hmessage, hnames facts hfacts o ho⟩
  | _ => cases hkind

/-- No operation has the message of a declaration. -/
theorem message_ne_of_isOperation {audit audit' : Audit} {file file' : SurveyedFile} {issue other : Issue}
    (h : Arises audit file issue) (h' : Arises audit' file' other)
    (hnames : ∀ facts, file.script? = some facts → facts.NamesElements)
    (hguarded : ∀ facts, file'.style? = some facts → facts.IsGuarded)
    (hkind : issue.kind.isOperation = true) {selectors property : String}
    (hkind' : other.kind = .importantDeclaration selectors property) : issue.message ≠ other.message := by
  intro hmessage
  obtain ⟨lead, hlead, text, ⟨-, hquotes⟩, hissue, -⟩ := h.message
  obtain ⟨lead', -, text', ⟨-, hquotes'⟩, hother, hpage⟩ := h'.message
  obtain ⟨element, rest, rfl, helement⟩ := hquotes.exists_element hkind hnames
  rw [hkind'] at hquotes'
  obtain ⟨⟨value, rfl⟩, hsheet, facts, hfacts, rule, hrule, declaration, hdeclaration, rfl⟩ := hquotes'
  have hproperty := hguarded facts hfacts rule hrule declaration hdeclaration
  -- a style sheet is no page, so its message starts at once, and so has that of the operation to
  rw [hpage hsheet, String.empty_append] at hother
  have hwhole : "!important used on ".toList ++ (declaration.property.toList ++ ':' :: ' ' :: value.toList) =
      lead.toList ++ (element.toList ++ ' ' :: 'i' :: 's' :: ' ' :: rest.toList) := by
    simpa [hissue, hother] using congrArg String.toList hmessage.symm
  have hleads : ∀ lead ∈ messageLeads, lead = "" ∨ lead.toList.head? = some 'I' := by decide
  rcases hleads lead hlead with rfl | hstart
  · exact important_ne_operation helement hproperty hwhole
  · have hhead := congrArg List.head? hwhole.symm
    rw [List.head?_append, hstart] at hhead
    have hsame : 'I' = '!' := Option.some.inj hhead
    exact absurd hsame (by decide)

/-- An issue of another kind that has the message of an operation is about a critical style. -/
theorem isCritical_of_isOperation {audit audit' : Audit} {file file' : SurveyedFile}
    {issue other : Issue} (h : Arises audit file issue) (h' : Arises audit' file' other)
    (hnames : ∀ facts, file.script? = some facts → facts.NamesElements)
    (hguarded : ∀ facts, file'.style? = some facts → facts.IsGuarded)
    (hkind : issue.kind.isOperation = true) (hkind' : other.kind.isOperation = false)
    (hmessage : issue.message = other.message) : other.kind.isCritical = true := by
  obtain ⟨lead, -, middle, hwhole⟩ := h.exists_middle
  obtain ⟨lead', -, middle', hwhole'⟩ := h'.exists_middle
  have hframe : issue.kind.frame.2 = " at runtime" := by
    cases hissue : issue.kind <;> rw [hissue] at hkind <;> first | rfl | cases hkind
  rw [← hmessage, ← List.append_assoc] at hwhole'
  rw [hframe, ← List.append_assoc] at hwhole
  rcases IssueKind.isCritical_or_eq_important hkind'
    (List.suffix_or_suffix_of_suffix ⟨_, hwhole'.symm⟩ ⟨_, hwhole.symm⟩) with hcritical | ⟨_, _, himportant⟩
  · exact hcritical
  · exact absurd hmessage (message_ne_of_isOperation h h' hnames hguarded hkind himportant)

/-! ## Sources -/

/-- Whether an issue has a place in a source that is known. -/
def Issue.isPinned (issue : Issue) : Bool :=
  issue.position.isSome && issue.source.any SourceMap.isKnown

/-- Such an issue is filed under its source. -/
theorem Arises.source_of_isPinned {audit : Audit} {file : SurveyedFile} {issue : Issue}
    (h : Arises audit file issue) (hpinned : issue.isPinned = true) :
    issue.source = some issue.file := by
  unfold Issue.isPinned at hpinned
  rw [Bool.and_eq_true] at hpinned
  obtain ⟨position, hposition⟩ := Option.isSome_iff_exists.1 hpinned.1
  obtain ⟨place, origin, -, -, hsource, hfile⟩ := h.filed hposition
  have hknown : origin.isKnown = true := by simpa [hsource, SourceMap.Origin.isKnown] using hpinned.2
  rw [hsource, hfile, if_pos hknown]

/-! ## Scans -/

/-- The issues in the groups are issues of the results. -/
theorem mem_results_of_mem_groups {root unknownDir : String} {results : Results}
    (h : results.DigestsApart) {entry : Category × Issue}
    (hentry : entry ∈ (Groups.ofResults root unknownDir results).entries) :
    entry.2 ∈ results.get entry.1 := by
  have hdistinct := (Grouping.holds_ofResults root unknownDir h).perm.mem_iff.1 hentry
  have hsourced := eraseDupsBy_subset _ _ hdistinct
  exact mem_entries.1 (List.mem_filter.1 hsourced).1

/-- Provided that digests tell issues apart, every issue of a scan is represented in the groups by an
issue of the scan with its file and message. -/
theorem merged_issues_agree {disk : Disk} {root : String} {options : Options} {scannedAt : String}
    {assets : AssetMap} {report : Report}
    (hscan : Scan.ofAssets disk root options scannedAt assets = .ok report)
    (hapart : report.results.DigestsApart) {category : Category} {issue : Issue}
    (hissue : issue ∈ report.results.get category) :
    ∃ entry ∈ report.groups.entries, entry.2 ∈ report.results.get entry.1 ∧
      entry.2.key = issue.key ∧
      ('|' ∉ entry.2.file.toList → '|' ∉ issue.file.toList →
        entry.2.file = issue.file ∧ entry.2.message = issue.message ∧
        (entry.2.kind.isOperation = false → issue.kind.isOperation = false →
          entry.2.typeName = issue.typeName) ∧
        (entry.2.kind.isOperation ≠ issue.kind.isOperation →
          entry.2.kind.isCritical = true ∨ issue.kind.isCritical = true) ∧
        (entry.2.isPinned = true → issue.isPinned = true → entry.2.source = issue.source)) := by
  obtain ⟨audit, file, hmem, harises⟩ := exists_arises hscan hissue
  have hgroups := (ofAssets_eq_ok hscan).2
  have hcount := countP_entries root options.unknownDir hapart hissue harises.source
  rw [← hgroups] at hcount
  obtain ⟨entry, hentry, hkey⟩ := List.countP_pos_iff.1 (hcount ▸ Nat.one_pos)
  have hkey : entry.2.key = issue.key := beq_iff_eq.1 hkey
  have hfound : entry.2 ∈ report.results.get entry.1 :=
    mem_results_of_mem_groups hapart (hgroups ▸ hentry)
  obtain ⟨audit', file', hmem', harises'⟩ := exists_arises hscan hfound
  refine ⟨entry, hentry, hfound, hkey, fun hbar hbar' => ?_⟩
  obtain ⟨hfile, hmessage⟩ := key_inj hbar hbar' hkey
  refine ⟨hfile, hmessage, fun hkind hkind' => ?_, fun hkinds => ?_, fun hpinned hpinned' => ?_⟩
  · exact typeName_inj harises' harises hkind hkind' hmessage
  · cases hkind : entry.2.kind.isOperation with
    | true =>
      rw [hkind, ne_comm, ne_eq, Bool.not_eq_true] at hkinds
      exact .inr (isCritical_of_isOperation harises' harises
        (fun _ h => (gathered_script? hmem' h).namesElements)
        (fun _ h => (gathered_style? hmem h).isGuarded) hkind hkinds hmessage)
    | false =>
      rw [hkind, ne_comm, ne_eq, Bool.not_eq_false] at hkinds
      exact .inl (isCritical_of_isOperation harises harises'
        (fun _ h => (gathered_script? hmem h).namesElements)
        (fun _ h => (gathered_style? hmem' h).isGuarded) hkinds hkind hmessage.symm)
  · rw [harises'.source_of_isPinned hpinned, harises.source_of_isPinned hpinned', hfile]

/-- Whether all issues have the file and the message of the first. -/
def Results.oneKey (results : Results) : Bool :=
  match results.entries with
  | [] => true
  | first :: rest => rest.all (·.2.key == first.2.key)

theorem digestsApart_of_oneKey {results : Results} (h : results.oneKey = true) :
    results.DigestsApart := by
  intro a ha b hb _
  have ha := (List.mem_filter.1 ha).1
  have hb := (List.mem_filter.1 hb).1
  unfold Results.oneKey at h
  cases hentries : results.entries with
  | nil =>
    rw [hentries] at ha
    cases ha
  | cons first rest =>
    rw [hentries] at ha hb h
    have hfirst : ∀ entry ∈ first :: rest, entry.2.key = first.2.key := by
      intro entry hentry
      rcases List.mem_cons.1 hentry with rfl | hentry
      · rfl
      · exact beq_iff_eq.1 (List.all_eq_true.1 h entry hentry)
    rw [hfirst a ha, hfirst b hb]

theorem repeated_global_merged :
    let scan := Scan.ofAssets (.atDirectory "/app") "/app" { compile := false } ""
      ⟨[⟨"a.js", "window.a = 1;\nwindow.a = 2;", none⟩], [], []⟩
    ∃ report, scan = .ok report ∧ report.results.DigestsApart ∧
      ∃ issue ∈ report.results.globals, issue.position = some ⟨⟨2, 1⟩, ⟨2, 13⟩⟩ ∧
        ∃ entry ∈ report.groups.entries, entry.2.file = issue.file ∧
          entry.2.message = issue.message ∧ entry.2.typeName = issue.typeName ∧
          entry.2.source = issue.source := by
  intro scan
  have hissues : scan.toOption.any fun report => report.results.oneKey &&
      report.results.entries.all (fun entry => !entry.2.file.toList.contains '|' &&
        !entry.2.kind.isOperation && entry.2.isPinned) &&
      report.results.globals.any (·.position == some ⟨⟨2, 1⟩, ⟨2, 13⟩⟩) := by decide +kernel
  obtain ⟨report, hscan, hissues⟩ := exists_ok_of_any hissues
  simp only [Bool.and_eq_true, List.any_eq_true, List.all_eq_true, Bool.not_eq_true',
    List.contains_eq_mem, decide_eq_false_iff_not, beq_iff_eq] at hissues
  obtain ⟨⟨hkey, hplain⟩, issue, hissue, hposition⟩ := hissues
  have hapart := digestsApart_of_oneKey hkey
  obtain ⟨entry, hentry, hfound, -, hagree⟩ := merged_issues_agree hscan hapart
    (show issue ∈ report.results.get .globals from hissue)
  obtain ⟨⟨hbar, hkind⟩, hpinned⟩ := hplain _ (mem_entries.2 hfound)
  obtain ⟨⟨hbar', hkind'⟩, hpinned'⟩ := hplain (.globals, issue) (mem_entries.2 hissue)
  obtain ⟨hfile, hmessage, htype, -, hsource⟩ := hagree hbar hbar'
  exact ⟨report, hscan, hapart, issue, hissue, hposition, entry, hentry, hfile, hmessage,
    htype hkind hkind', hsource hpinned hpinned'⟩

/-! ## What is lost -/

/-- Whether something of an issue of the results is true of no issue in the groups. -/
def Report.loses {α : Type} (part : Issue → α) (report : Report) : Prop :=
  ∃ entry ∈ report.results.entries, ∀ kept ∈ report.groups.entries, part kept.2 ≠ part entry.2

/-- A scan whose issues all have the same file and message keeps the first. -/
theorem loses_of_distinct {α : Type} [DecidableEq α] (part : Issue → α) {disk : Disk}
    {options : Options} {assets : AssetMap}
    (h : (Scan.ofAssets disk "/app" options "" assets).toOption.any fun report =>
      report.results.oneKey && report.results.entries.any fun entry =>
        report.results.distinct.all fun kept => part kept.2 ≠ part entry.2) :
    ∃ report, Scan.ofAssets disk "/app" options "" assets = .ok report ∧ report.loses part := by
  obtain ⟨report, hscan, hdistinct⟩ := exists_ok_of_any h
  simp only [Bool.and_eq_true, List.any_eq_true, List.all_eq_true, decide_eq_true_eq] at hdistinct
  obtain ⟨hkey, entry, hentry, hlost⟩ := hdistinct
  refine ⟨report, hscan, entry, hentry, fun kept hkept => hlost kept ?_⟩
  rw [(ofAssets_eq_ok hscan).2] at hkept
  exact (Grouping.holds_ofResults _ _ (digestsApart_of_oneKey hkey)).perm.mem_iff.1 hkept

/-- The same script in two pages, and an asset that has the name of a source that a bundle is made from:
one of the two sources is lost. A bar in a file name loses a message. Code that reads like the end of a
message loses a type, and so does a declaration that reads on like an operation. (U+0085 can stand in a
name, and U+2028 ends a comment; both are blanks in a message.) -/
theorem merging_loses_origins :
    let page := "<script>window.x = 1;</script>"
    let map := "\x7b\"sources\":[\"src/a.js\"],\"mappings\":\"AAAA\"\x7d"
    let disk : Disk := ⟨["app"], [(["app", "src", "a.js"], .text "window.a = 1;\n")]⟩
    let handler (event : String) := "window.addEventListener('" ++ event ++ "', () => \x7b\x7d);"
    let operations := "$(\" d is inserted into jQuery('x\").appendChild(a+//\nb);" ++
      "$(\"x\").insertBefore(a+// b is appended to jQuery('\nd)"
    let sheet := "* // b\na \x7bmargin: 0 c is appended to d at runtime\x7d"
    let styled := "d.appendChild(Critical\u0085global\u0085style\u0085on" ++
      " * // b a affects the whole document: margin: 0\u2028c)"
    let sheetMap := "\x7b\"sources\":[\"a.css\"],\"mappings\":\"AAAA\"\x7d"
    (∃ report, Scan.ofAssets disk "/app" { compile := false } ""
        ⟨[], [], [⟨"a.html", page, none⟩, ⟨"b.html", page, none⟩]⟩ = .ok report ∧
      report.loses (·.source)) ∧
    (∃ report, Scan.ofAssets disk "/app" {} ""
        ⟨[⟨"src/a.js", "window.a = 1;", none⟩, ⟨"dist/main.js", "window.a = 1;", some map⟩], [], []⟩ =
          .ok report ∧
      report.loses (·.source)) ∧
    (∃ report, Scan.ofAssets disk "/app" {} ""
        ⟨[⟨"a.js", handler "x.js | Anonymous handler for b", none⟩,
          ⟨"a.js | Anonymous handler for x.js", handler "b", none⟩], [], []⟩ = .ok report ∧
      report.loses (·.message)) ∧
    (∃ report, Scan.ofAssets disk "/app"
        { rules := { dynamicElementAppend := true, dynamicElementInsert := true } } ""
        ⟨[⟨"a.js", operations, none⟩], [], []⟩ = .ok report ∧
      report.loses (·.typeName)) ∧
    ∃ report, Scan.ofAssets ⟨["app"], [(["app", "a.css"], .text sheet)]⟩ "/app"
        { rules := { globalSelector := false, dynamicElementAppend := true } } ""
        ⟨[⟨"b.js", styled, some sheetMap⟩], [⟨"a.css", sheet, none⟩], []⟩ = .ok report ∧
      report.loses (·.typeName) := by
  refine ⟨loses_of_distinct _ ?_, loses_of_distinct _ ?_, loses_of_distinct _ ?_,
    loses_of_distinct _ ?_, loses_of_distinct _ ?_⟩
  all_goals decide +kernel

end AssetAudit
