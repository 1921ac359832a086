import AssetAudit.Json.Writer
import AssetAudit.Report.Console
import AssetAudit.Report.Json
import AssetAudit.Yaml.Writer

/-!
# Report output

Where a report goes: to a JSON file, to a YAML file, and to the console unless it is to be quiet. What
is written is a new disk and the lines printed on the way.
-/
namespace AssetAudit.Output

structure Targets where
  json : Option String := none
  yaml : Option String := none
  quiet : Bool := false
  deriving DecidableEq, Repr

/-- The configured output goes to the file of its format, unless that is named already
(`with_configured_output`). -/
def Targets.withConfigured (targets : Targets) (output : Option String) (format : ReportFormat) :
    Targets :=
  match format with
  | .json => { targets with json := targets.json <|> output }
  | .yaml => { targets with yaml := targets.yaml <|> output }

/-- The text of the JSON file (`write_json`). -/
def jsonText (report : Report) : String := Json.pretty report.toValue

/-- The text of the YAML file (`write_yaml`). -/
def yamlText (report : Report) : String := Yaml.document report.toValue

/-- What came of writing a report. -/
structure Written where
  disk : Disk
  /-- The lines printed. -/
  printed : List String
  failure : Option ScanError

/-- Write a file, unless something failed before (`write_file`). -/
def writeFile (name : String) (path : Option String) (text : String) (before : Written) : Written :=
  match path, before.failure with
  | some path, none =>
    match before.disk.write? path text with
    | some disk =>
      { before with
        disk := disk
        printed := before.printed ++ [name ++ " report written to: " ++ path] }
    | none => { before with failure := some (.unwritable path) }
  | _, _ => before

/-- Write a report: the JSON file, then the YAML file, then the console (`report`). -/
def write (disk : Disk) (targets : Targets) (report : Report) : Written :=
  let written := writeFile "YAML" targets.yaml (yamlText report)
    (writeFile "JSON" targets.json (jsonText report) ⟨disk, [], none⟩)
  if targets.quiet || written.failure.isSome then written
  else { written with printed := written.printed ++ Console.lines false report }

end AssetAudit.Output
