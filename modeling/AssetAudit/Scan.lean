import AssetAudit.Analysis.Element
import AssetAudit.Analysis.Global
import AssetAudit.Analysis.Listener
import AssetAudit.Analysis.Style
import AssetAudit.Dependency.Collect
import AssetAudit.Report

/-!
# Scans

A scan surveys assets, runs the four analyses on the survey and reports what they find. The assets are
given, or else collected from where the options say.

Here and in the other modules, a name in parentheses at the end of a description is that of the function
of the scanner with that behaviour.
-/
namespace AssetAudit.Scan

/-- What the analyses find, and what the last of them that looks up definitions has remembered. -/
def analyse (audit : Audit) (memory : Analysis.Memory) : Results × Analysis.Memory :=
  let (listeners, memory) := Analysis.Listener.issues audit memory
  (⟨Analysis.Style.issues audit, Analysis.Global.issues audit, listeners,
    Analysis.Element.issues audit⟩, memory)

/-- The audit of a survey, under the filter that the survey's own rules complete. -/
def auditOf (disk : Disk) (root : String) (options : Options) (filter : IgnoreFilter)
    (survey : Survey) : Audit :=
  ⟨disk, root, options, filter.append survey.rules, survey.files⟩

/-- The issues of a survey. -/
def resultsOf (disk : Disk) (root : String) (options : Options) (filter : IgnoreFilter)
    (survey : Survey) : Results :=
  (analyse (auditOf disk root options filter survey) (.ofFiles root survey.files)).1

/-- Scan given assets. It is an error if none of them can be analysed. -/
def ofAssets (disk : Disk) (root : String) (options : Options) (scannedAt : String)
    (assets : AssetMap) : Except ScanError Report :=
  let filter := IgnoreFilter.ofEntries root options.ignored
  let survey := Survey.ofAssets options filter assets
  if survey.parsedCount == 0 then .error (.noFiles options.scanRoot)
  else
    .ok (.ofResults options root survey.parsedCount scannedAt
      (resultsOf disk root options filter survey))

/-- Scan what the options name (`scan`). -/
def run (disk : Disk) (root : String) (options : Options) (scannedAt : String) :
    Except ScanError Report := do
  let assets ← Dependency.collect disk (.ofOptions root options) options.scanRoot
  ofAssets disk root options scannedAt assets

/-- Scan assets and options given as JSON (`scan_assets`). A blank text of options stands for the
defaults. -/
def ofTexts (disk : Disk) (root scannedAt assetsText optionsText : String) :
    Except ScanError Report := do
  let some assets := (Json.parse? assetsText).bind AssetMap.decode? | .error .invalidAssets
  let options ←
    if Text.isBlankText optionsText then .ok {}
    else
      match Options.parse? optionsText with
      | some options => .ok options
      | none => .error .invalidConfig
  ofAssets disk root options scannedAt assets

end AssetAudit.Scan
