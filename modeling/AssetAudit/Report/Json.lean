import AssetAudit.Issue.Json
import AssetAudit.Report

/-!
# Reports as JSON

`toValue` writes a report and `decode?` reads one. In the groups a file may stand anywhere; reading puts
the files in the order of their names, and of a repeated name the last one counts.
-/
namespace AssetAudit

open Json (Value)

/-- The keys of the four lists. -/
def Results.keys : List String := ["css", "globalVars", "eventListeners", "dynamicElements"]

namespace Results

def toValue (results : Results) : Value :=
  let list (issues : List Issue) : Value := .list (issues.map Issue.toValue)
  .object [("css", list results.styles), ("globalVars", list results.globals),
    ("eventListeners", list results.listeners), ("dynamicElements", list results.elements)]

def decode? (v : Value) : Option Results := do
  let fields ← v.record? keys
  let list (key : String) : Option (List Issue) :=
    Json.required? fields key (Value.all? Issue.decode?)
  return ⟨← list "css", ← list "globalVars", ← list "eventListeners", ← list "dynamicElements"⟩

end Results

namespace IssueCounts

def toValue (counts : IssueCounts) : Value :=
  .object [("css", .ofNat counts.styles), ("globalVars", .ofNat counts.globals),
    ("eventListeners", .ofNat counts.listeners), ("dynamicElements", .ofNat counts.elements),
    ("total", .ofNat counts.total)]

def decode? (v : Value) : Option IssueCounts := do
  let fields ← v.record? (Results.keys ++ ["total"])
  let count (key : String) : Option Nat := Json.required? fields key Value.nat?
  return ⟨← count "css", ← count "globalVars", ← count "eventListeners",
    ← count "dynamicElements", ← count "total"⟩

end IssueCounts

namespace Summary

def toValue (summary : Summary) : Value :=
  .object [("entry", .text summary.entry), ("directory", .text summary.directory),
    ("totalFiles", .ofNat summary.totalFiles), ("scannedAt", .text summary.scannedAt),
    ("issues", summary.issues.toValue)]

def decode? (v : Value) : Option Summary := do
  let fields ← v.record? ["entry", "directory", "totalFiles", "scannedAt", "issues"]
  let text (key : String) : Option String := Json.required? fields key Value.string?
  return ⟨← text "entry", ← text "directory", ← Json.required? fields "totalFiles" Value.nat?,
    ← text "scannedAt", ← Json.required? fields "issues" IssueCounts.decode?⟩

end Summary

namespace Groups

def filesValue (files : FileResults) : Value :=
  .object (files.map fun (file, results) => (file, results.toValue))

def toValue (groups : Groups) : Value :=
  .object (SourceGroup.all.map fun group => (group.name, filesValue (groups.get group)))

def decodeFiles? : Value → Option FileResults
  | .object fields =>
    fields.foldlM (fun files (file, v) =>
      (Results.decode? v).map fun results => updateFile file (fun _ => results) files) []
  | _ => none

def decode? (v : Value) : Option Groups := do
  let fields ← v.record? (SourceGroup.all.map SourceGroup.name)
  let group (group : SourceGroup) : Option FileResults :=
    Json.required? fields group.name decodeFiles?
  return ⟨← group .source, ← group .nodeModules, ← group .unknown⟩

end Groups

namespace Report

def toValue (report : Report) : Value :=
  .object [("summary", report.summary.toValue), ("results", report.results.toValue),
    ("groups", report.groups.toValue)]

def decode? (v : Value) : Option Report := do
  let fields ← v.record? ["summary", "results", "groups"]
  return ⟨← Json.required? fields "summary" Summary.decode?,
    ← Json.required? fields "results" Results.decode?,
    ← Json.required? fields "groups" Groups.decode?⟩

end Report
end AssetAudit
