import AssetAudit.Proofs.GroupedIssue
import AssetAudit.Proofs.JsonText
import AssetAudit.Proofs.ListedSource
import AssetAudit.Report.Output

/-!
# Reports read back

A record is written as a value that reads back and is decoded to the record (`Codes`). Records are taken
from the inside out, each from its fields: places, issues of the sixteen kinds, the lists of a file, the
files of a group, the report. Two things are needed of a report: its numbers are machine words
(`Report.InRange`), since greater ones are refused, and its files are in the order of their names, since
that is how they are read. The groups of a scan are in this order.

Main statement: `written_report_reads_back`.
-/
namespace AssetAudit

open Json (Value ReadsBack)

/-! ## Fields -/

namespace Json

/-- The fields of a record among others that are not of the record. -/
theorem record?_append {keys : List String} {others fields : List (String × Value)}
    (hothers : ∀ field ∈ others, field.1 ∉ keys) (hfields : ∀ field ∈ fields, field.1 ∈ keys)
    (hnodup : (fields.map (·.1)).Nodup) :
    (Value.object (others ++ fields)).record? keys = some fields := by
  have hknown : (others ++ fields).filter (fun field => keys.contains field.1) = fields := by
    rw [List.filter_append, List.filter_eq_nil_iff.2 (by simpa using hothers),
      List.filter_eq_self.2 (by simpa using hfields), List.nil_append]
  exact record?_object_eq_some.2 ⟨hknown.symm, hnodup⟩

@[simp] theorem record?_object {keys : List String} {fields : List (String × Value)}
    (hfields : ∀ field ∈ fields, field.1 ∈ keys) (hnodup : (fields.map (·.1)).Nodup) :
    (Value.object fields).record? keys = some fields :=
  record?_append (fun _ h => absurd h List.not_mem_nil) hfields hnodup

@[simp] theorem required?_cons {α : Type} (name : String) (v : Value) (fields : List (String × Value))
    (key : String) (decode : Value → Option α) :
    required? ((name, v) :: fields) key decode =
      if key = name then decode v else required? fields key decode := by
  rw [required?, lookup_cons_eq, required?]
  split <;> rfl

@[simp] theorem optional?_nil {α : Type} (key : String) (fallback : α) (decode : Value → Option α) :
    optional? [] key fallback decode = some fallback := rfl

@[simp] theorem optional?_cons {α : Type} (name : String) (v : Value) (fields : List (String × Value))
    (key : String) (fallback : α) (decode : Value → Option α) :
    optional? ((name, v) :: fields) key fallback decode =
      if key = name then decode v else optional? fields key fallback decode := by
  rw [optional?, lookup_cons_eq, optional?]
  by_cases h : key = name <;> simp [h]

@[simp] theorem string?_text (s : String) : Value.string? (.text s) = some s := rfl

@[simp] theorem optional?_text (s : String) :
    Value.optional? Value.string? (.text s) = some (some s) := rfl

/-- Whether a value reads back and is decoded to `a`. -/
structure Codes {α : Type} (decode : Value → Option α) (v : Value) (a : α) : Prop where
  readsBack : ReadsBack v
  decoded : decode v = some a

namespace Codes

theorem text (s : String) : Codes Value.string? (.text s) s := ⟨.text s, rfl⟩

theorem ofNat {n : Nat} (h : n < 2 ^ 64) : Codes Value.nat? (.ofNat n) n := by
  refine ⟨.ofNat n, ?_⟩
  have hdigits : (toString n).toList.all Char.isDigit = true := by
    rw [Nat.toString_eq_ofList_toDigits, String.toList_ofList, List.all_eq_true]
    exact fun c hc => Nat.isDigit_of_mem_toDigits (by decide) (by decide) hc
  have hvalue : (toString n).toList.foldl (fun n c => 10 * n + (c.toNat - 48)) 0 = n := by
    rw [Nat.toString_eq_ofList_toDigits, String.toList_ofList]
    exact Nat.ofDigitChars_ten_toDigits
  rw [Value.nat?, Value.ofNat, Value.natBelow?, if_pos hdigits, hvalue]
  exact if_pos h

theorem list {α : Type} {decode : Value → Option α} {toValue : α → Value} {items : List α}
    (h : ∀ item ∈ items, Codes decode (toValue item) item) :
    Codes (Value.all? decode) (.list (items.map toValue)) items := by
  constructor
  · refine .list fun v hv => ?_
    obtain ⟨item, hitem, rfl⟩ := List.mem_map.1 hv
    exact (h item hitem).readsBack
  · show (items.map toValue).mapM decode = some items
    induction items with
    | nil => rfl
    | cons item items ih =>
      rw [List.map_cons, List.mapM_cons, (h item List.mem_cons_self).decoded,
        ih fun other hother => h other (List.mem_cons_of_mem _ hother)]
      rfl

end Codes
end Json

open Json (Codes)

/-! ## Places -/

def Position.InRange (p : Position) : Prop := p.line < 2 ^ 64 ∧ p.column < 2 ^ 64

theorem Position.codes {p : Position} (h : p.InRange) : Codes decode? p.toValue p := by
  have hline := Codes.ofNat h.1
  have hcolumn := Codes.ofNat h.2
  constructor
  · exact .object (by simp [hline.readsBack, hcolumn.readsBack])
  · simp [decode?, toValue, hline.decoded, hcolumn.decoded]

def Location.InRange (l : Location) : Prop := l.start.InRange ∧ l.stop.InRange

theorem Location.codes {l : Location} (h : l.InRange) : Codes decode? l.toValue l := by
  have hstart := Position.codes h.1
  have hstop := Position.codes h.2
  constructor
  · exact .object (by simp [hstart.readsBack, hstop.readsBack])
  · simp [decode?, toValue, hstart.decoded, hstop.decoded]

/-! ## Issues -/

theorem Severity.decode?_name (severity : Severity) : decode? (.text severity.name) = some severity := by
  cases severity <;> rfl

namespace IssueKind

def InRange : IssueKind → Prop
  | complexSelector _ complexity => complexity < 2 ^ 64
  | _ => True

theorem codes_ofStrings (items : List String) :
    Codes (Value.all? Value.string?) (.ofStrings items) items :=
  Codes.list fun item _ => Codes.text item

theorem readsBack_optionalField (key : String) (text : Option String) :
    ∀ field ∈ optionalField key text, ReadsBack field.2 := by
  cases text with
  | none => simp [optionalField]
  | some text => simp [optionalField, ReadsBack.text]

theorem readsBack_fields (kind : IssueKind) : ∀ field ∈ kind.fields, ReadsBack field.2 := by
  cases kind with
  | criticalGlobalStyle selector declarations =>
    simp [fields, ReadsBack.text, (codes_ofStrings declarations).readsBack]
  | dynamicElementInsert element parent reference operation =>
    intro field hfield
    simp only [fields, List.mem_append] at hfield
    rcases hfield with (hfield | hfield) | hfield
    · revert field
      simp [ReadsBack.text]
    · exact readsBack_optionalField _ _ field hfield
    · revert field
      simp [ReadsBack.text]
  | _ => simp [fields, ReadsBack.text, ReadsBack.ofNat]

/-- A kind is told from its type and its fields. -/
theorem ofFields?_fields {kind : IssueKind} (h : kind.InRange) :
    ofFields? kind.typeName (("type", .text kind.typeName) :: kind.fields) = some kind := by
  -- three kinds have a field that is not a text
  cases kind with
  | criticalGlobalStyle selector declarations =>
    simp [ofFields?, typeName, fields, (codes_ofStrings declarations).decoded]
  | complexSelector selector complexity =>
    simp [ofFields?, typeName, fields, (Codes.ofNat h).decoded]
  | dynamicElementInsert element parent reference operation =>
    cases reference <;> simp [ofFields?, typeName, fields, optionalField]
  | _ => simp [ofFields?, typeName, fields]

/-- No field of a kind is one that all issues have. -/
theorem fields_own (kind : IssueKind) :
    ∀ field ∈ ("type", Value.text kind.typeName) :: kind.fields, field.1 ∉ Issue.commonKeys := by
  cases kind with
  | dynamicElementInsert element parent reference operation =>
    cases reference <;> simp [fields, optionalField, Issue.commonKeys]
  | _ => simp [fields, Issue.commonKeys]

end IssueKind

namespace Issue

def InRange (issue : Issue) : Prop :=
  issue.kind.InRange ∧ ∀ position ∈ issue.position, position.InRange

/-- The fields that all issues have, as far as they have a value. -/
def commonFields (issue : Issue) : List (String × Value) :=
  [("severity", .text issue.severity.name), ("message", .text issue.message),
    ("file", .text issue.file)] ++
    (match issue.position with
      | some position => [("position", position.toValue)]
      | none => []) ++
    IssueKind.optionalField "code" issue.code ++ IssueKind.optionalField "source" issue.source

theorem toValue_eq (issue : Issue) : issue.toValue =
    .object ((("type", .text issue.typeName) :: issue.kind.fields) ++ issue.commonFields) := by
  cases h : issue.position <;> simp [toValue, commonFields, h]

theorem readsBack_commonFields {issue : Issue} (h : issue.InRange) :
    ∀ field ∈ issue.commonFields, ReadsBack field.2 := by
  intro field hfield
  simp only [commonFields, List.mem_append] at hfield
  rcases hfield with ((hfield | hfield) | hfield) | hfield
  · revert field
    simp [ReadsBack.text]
  · cases hposition : issue.position with
    | none => simp [hposition] at hfield
    | some position =>
      simp only [hposition, List.mem_singleton] at hfield
      rw [hfield]
      exact (Location.codes (h.2 position hposition)).readsBack
  · exact IssueKind.readsBack_optionalField _ _ field hfield
  · exact IssueKind.readsBack_optionalField _ _ field hfield

theorem keys_commonFields (issue : Issue) :
    List.Sublist (issue.commonFields.map (·.1)) commonKeys := by
  unfold commonFields
  cases issue.position <;> cases issue.code <;> cases issue.source <;>
    simp only [IssueKind.optionalField, List.map_append, List.map_cons, List.map_nil] <;> decide

theorem mem_commonKeys (issue : Issue) : ∀ field ∈ issue.commonFields, field.1 ∈ commonKeys :=
  fun _ hfield => (keys_commonFields issue).subset (List.mem_map_of_mem hfield)

theorem record?_commonFields (issue : Issue) :
    issue.toValue.record? commonKeys = some issue.commonFields := by
  rw [toValue_eq]
  exact Json.record?_append (IssueKind.fields_own issue.kind) (mem_commonKeys issue)
    ((keys_commonFields issue).nodup (by decide))

theorem filter_own (issue : Issue) :
    ((("type", Value.text issue.typeName) :: issue.kind.fields) ++ issue.commonFields).filter
      (fun field => !commonKeys.contains field.1) =
        ("type", .text issue.typeName) :: issue.kind.fields := by
  rw [List.filter_append, List.filter_eq_self.2, List.filter_eq_nil_iff.2, List.append_nil]
  · simpa using mem_commonKeys issue
  · intro field hfield
    simpa using IssueKind.fields_own issue.kind field hfield

theorem codes {issue : Issue} (h : issue.InRange) : Codes decode? issue.toValue issue := by
  constructor
  · rw [toValue_eq]
    refine .object fun field hfield => ?_
    rcases List.mem_append.1 hfield with hfield | hfield
    · rcases List.mem_cons.1 hfield with rfl | hfield
      · exact .text _
      · exact IssueKind.readsBack_fields issue.kind field hfield
    · exact readsBack_commonFields h field hfield
  · have hrecord := record?_commonFields issue
    have hkind := IssueKind.ofFields?_fields h.1
    rw [toValue_eq] at hrecord ⊢
    simp only [decode?, hrecord, filter_own, Option.bind_eq_bind, Option.bind_some,
      Json.required?_cons, if_true, IssueKind.typeOf?]
    rw [typeName, hkind]
    obtain ⟨kind, severity, message, file, position, code, source⟩ := issue
    cases position with
    | none =>
      cases code <;> cases source <;>
        simp [commonFields, IssueKind.optionalField, Severity.decode?_name]
    | some position =>
      have hposition : Value.optional? Location.decode? position.toValue = some (some position) :=
        congrArg (Option.map some) (Location.codes (h.2 position rfl)).decoded
      cases code <;> cases source <;>
        simp [commonFields, IssueKind.optionalField, Severity.decode?_name, hposition]

end Issue

/-! ## Lists and counts -/

def Results.InRange (results : Results) : Prop := ∀ entry ∈ results.entries, entry.2.InRange

theorem Results.codes {results : Results} (h : results.InRange) :
    Codes decode? results.toValue results := by
  have hlist : ∀ category, Codes (Value.all? Issue.decode?)
      (.list ((results.get category).map Issue.toValue)) (results.get category) := fun category =>
    Codes.list fun issue hissue => Issue.codes (h (category, issue) (mem_entries.2 hissue))
  have hstyles := hlist .styles
  have hglobals := hlist .globals
  have hlisteners := hlist .listeners
  have helements := hlist .elements
  simp only [get] at hstyles hglobals hlisteners helements
  constructor
  · exact .object (by
      simp [hstyles.readsBack, hglobals.readsBack, hlisteners.readsBack, helements.readsBack])
  · simp [decode?, toValue, keys, hstyles.decoded, hglobals.decoded, hlisteners.decoded,
      helements.decoded]

def IssueCounts.InRange (counts : IssueCounts) : Prop :=
  counts.styles < 2 ^ 64 ∧ counts.globals < 2 ^ 64 ∧ counts.listeners < 2 ^ 64 ∧
    counts.elements < 2 ^ 64 ∧ counts.total < 2 ^ 64

theorem IssueCounts.codes {counts : IssueCounts} (h : counts.InRange) :
    Codes decode? counts.toValue counts := by
  obtain ⟨hstyles, hglobals, hlisteners, helements, htotal⟩ := h
  constructor
  · exact .object (by simp [ReadsBack.ofNat])
  · simp [decode?, toValue, Results.keys, (Codes.ofNat hstyles).decoded, (Codes.ofNat hglobals).decoded,
      (Codes.ofNat hlisteners).decoded, (Codes.ofNat helements).decoded, (Codes.ofNat htotal).decoded]

def Summary.InRange (summary : Summary) : Prop :=
  summary.totalFiles < 2 ^ 64 ∧ summary.issues.InRange

theorem Summary.codes {summary : Summary} (h : summary.InRange) :
    Codes decode? summary.toValue summary := by
  have htotal := Codes.ofNat h.1
  have hissues := IssueCounts.codes h.2
  constructor
  · exact .object (by simp [ReadsBack.text, htotal.readsBack, hissues.readsBack])
  · simp [decode?, toValue, htotal.decoded, hissues.decoded]

/-! ## Groups -/

namespace Groups

def InRange (groups : Groups) : Prop :=
  ∀ group ∈ SourceGroup.all, ∀ entry ∈ groups.get group, entry.2.InRange

/-- Files that come in their order are put one behind the other. -/
theorem foldlM_updateFile : ∀ {files before : FileResults}, Ordered (before ++ files) →
    (∀ entry ∈ files, entry.2.InRange) →
    (files.map fun (file, results) => (file, results.toValue)).foldlM (fun files (file, v) =>
      (Results.decode? v).map fun results => updateFile file (fun _ => results) files) before =
        some (before ++ files)
  | [], before, _, _ => by simp
  | (file, results) :: files, before, hordered, hrange => by
    have hlast : ∀ entry ∈ before, entry.1 < file := fun entry hentry =>
      (List.pairwise_append.1 hordered).2.2 entry hentry _ List.mem_cons_self
    have hresults : Results.decode? results.toValue = some results :=
      (Results.codes (hrange _ List.mem_cons_self)).decoded
    rw [List.append_cons] at hordered ⊢
    simp only [List.map_cons, List.foldlM_cons, hresults, Option.map_some, Option.bind_eq_bind,
      Option.bind_some, Ordered.updateFile_of_last hlast]
    exact foldlM_updateFile hordered fun entry hentry => hrange entry (List.mem_cons_of_mem _ hentry)

theorem codes_filesValue {files : FileResults} (hordered : Ordered files)
    (hrange : ∀ entry ∈ files, entry.2.InRange) : Codes decodeFiles? (filesValue files) files := by
  constructor
  · refine .object fun field hfield => ?_
    obtain ⟨entry, hentry, rfl⟩ := List.mem_map.1 hfield
    exact (Results.codes (hrange entry hentry)).readsBack
  · exact foldlM_updateFile (show Ordered ([] ++ files) from hordered) hrange

theorem codes {groups : Groups} (hordered : ∀ group, Ordered (groups.get group))
    (hrange : groups.InRange) : Codes decode? groups.toValue groups := by
  have hfiles : ∀ group, Codes decodeFiles? (filesValue (groups.get group)) (groups.get group) :=
    fun group => codes_filesValue (hordered group)
      (hrange group (by cases group <;> simp [SourceGroup.all]))
  have hsource := hfiles .source
  have hnodeModules := hfiles .nodeModules
  have hunknown := hfiles .unknown
  simp only [get] at hsource hnodeModules hunknown
  constructor
  · exact .object (by
      simp [SourceGroup.all, get, hsource.readsBack, hnodeModules.readsBack, hunknown.readsBack])
  · simp [decode?, toValue, SourceGroup.all, SourceGroup.name, get, hsource.decoded,
      hnodeModules.decoded, hunknown.decoded]

/-- The groups of results are kept in order. -/
theorem ordered_ofResults (root unknownDir : String) (results : Results) (group : SourceGroup) :
    Ordered ((ofResults root unknownDir results).get group) :=
  (Grouping.Holds.run results.entries {} [] Grouping.holds_empty).ordered group

end Groups

/-! ## Reports -/

/-- Whether the numbers of a report are machine words. -/
def Report.InRange (report : Report) : Prop :=
  report.summary.InRange ∧ report.results.InRange ∧ report.groups.InRange

theorem Report.codes {report : Report} (hrange : report.InRange)
    (hordered : ∀ group, Ordered (report.groups.get group)) :
    Codes decode? report.toValue report := by
  have hsummary := Summary.codes hrange.1
  have hresults := Results.codes hrange.2.1
  have hgroups := Groups.codes hordered hrange.2.2
  constructor
  · exact .object (by simp [hsummary.readsBack, hresults.readsBack, hgroups.readsBack])
  · simp [decode?, toValue, hsummary.decoded, hresults.decoded, hgroups.decoded]

/-- A report whose numbers are machine words and whose files are in order is read back from the text it is
written as. The files of a scan are in order. -/
theorem written_report_reads_back :
    (∀ report : Report, report.InRange → (∀ group, Ordered (report.groups.get group)) →
      (Json.parse? (Output.jsonText report)).bind Report.decode? = some report) ∧
    ∀ disk root options scannedAt assets report,
      Scan.ofAssets disk root options scannedAt assets = .ok report →
      ∀ group, Ordered (report.groups.get group) := by
  refine ⟨fun report hrange hordered => ?_, ?_⟩
  · have hcodes := Report.codes hrange hordered
    rw [Output.jsonText, hcodes.readsBack.parse?_pretty, Option.bind_some, hcodes.decoded]
  · intro disk root options scannedAt assets report hscan group
    rw [(ofAssets_eq_ok hscan).2]
    exact Groups.ordered_ofResults root options.unknownDir report.results group

theorem escaped_report_reads_back :
    let selector : Issue :=
      { kind := .complexSelector "a \"b\"" 18446744073709551615, severity := .info,
        message := "tab\t, bell \x07, \\ and é", file := "\n.css",
        position := some ⟨⟨1, 1⟩, ⟨2, 0⟩⟩, source := some "" }
    let inserted : Issue :=
      { kind := .dynamicElementInsert "e" "p" none "insertBefore", severity := .error,
        message := "null", file := "a.js", code := some "p.insertBefore(e, null)" }
    let report : Report :=
      { summary := ⟨"src", ".", 2, "now", ⟨1, 0, 0, 1, 2⟩⟩
        results := { styles := [selector], elements := [inserted] }
        groups := { source := [("", { styles := [selector] }), ("a.js", { elements := [inserted] })] } }
    report.InRange ∧ (∀ group, Ordered (report.groups.get group)) ∧
      (Json.parse? (Output.jsonText report)).bind Report.decode? = some report := by
  intro selector inserted report
  have hselector : selector.InRange := by
    refine ⟨show 18446744073709551615 < 2 ^ 64 by decide, ?_⟩
    rintro position ⟨⟩
    exact ⟨⟨by decide, by decide⟩, by decide, by decide⟩
  have hinserted : inserted.InRange := ⟨trivial, fun _ h => by cases h⟩
  have hstyles : ({ styles := [selector] } : Results).InRange := by
    simp [Results.InRange, Results.entries, Category.all, Results.get, hselector]
  have helements : ({ elements := [inserted] } : Results).InRange := by
    simp [Results.InRange, Results.entries, Category.all, Results.get, hinserted]
  have hrange : report.InRange := by
    refine ⟨⟨by decide, by decide, by decide, by decide, by decide, by decide⟩, ?_, ?_⟩
    · simp [report, Results.InRange, Results.entries, Category.all, Results.get, hselector, hinserted]
    · intro group _ entry hentry
      cases group with
      | source =>
        simp only [report, Groups.get, List.mem_cons, List.not_mem_nil, or_false] at hentry
        rcases hentry with rfl | rfl
        · exact hstyles
        · exact helements
      | nodeModules => cases hentry
      | unknown => cases hentry
  have hordered : ∀ group, Ordered (report.groups.get group) := by
    intro group
    cases group <;> decide
  exact ⟨hrange, hordered, written_report_reads_back.1 report hrange hordered⟩

end AssetAudit
