import AssetAudit.Disk
import AssetAudit.Options

/-!
# Configuration files

Options come from the file that is named, or else from the first default file of a directory that
exists, or else they are the defaults.
-/
namespace AssetAudit.Configuration

/-- The names tried in a directory, in their order. -/
def defaultNames : List String :=
  [".serc.json", ".side-effect-scannerrc", ".side-effect-scannerrc.json",
    "side-effect-scanner.config.json"]

/-- The options that a configuration file states (`from_file`). -/
def ofFile (disk : Disk) (path : String) : Except ScanError Options :=
  match disk.read? path with
  | none => .error .unreadable
  | some text =>
    match Options.parse? text with
    | some options => .ok options
    | none => .error .invalidConfig

/-- The default file of a directory. -/
def defaultFile? (disk : Disk) (directory : String) : Option String :=
  (defaultNames.map (Path.join directory)).find? disk.holds

/-- The options of the named file, or those found in the directory (`load`). -/
def load (disk : Disk) (named : Option String) (directory : String) : Except ScanError Options :=
  match named with
  | some path => if disk.holds path then ofFile disk path else .error (.configMissing path)
  | none =>
    match defaultFile? disk directory with
    | some path => ofFile disk path
    | none => .ok {}

end AssetAudit.Configuration
