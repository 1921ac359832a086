/-!
# Errors

Why a run fails. A cause that comes from outside, such as a message of the file system, carries no
text of its own here.
-/
namespace AssetAudit

inductive ScanError where
  /-- A rule that does not exist was switched. -/
  | unknownRule (name : String)
  /-- The configuration file that was asked for is missing. -/
  | configMissing (path : String)
  /-- An alias without an equals sign. -/
  | invalidAlias (text : String)
  /-- A configuration that cannot be decoded. -/
  | invalidConfig
  /-- A file that cannot be read. -/
  | unreadable
  /-- Assets that cannot be decoded. -/
  | invalidAssets
  /-- The path a scan should start from does not exist. -/
  | entryNotFound (path : String)
  /-- There is nothing to analyse. -/
  | noFiles (scanRoot : String)
  /-- A report file that cannot be written. -/
  | unwritable (path : String)
  /-- The working directory does not exist. -/
  | noWorkingDirectory
  deriving DecidableEq, Repr

namespace ScanError

def message : ScanError → String
  | unknownRule name => "Configuration error: Unknown rule: " ++ name
  | configMissing path => "Configuration error: Config file not found: " ++ path
  | invalidAlias text => "Configuration error: Invalid alias '" ++ text ++ "', expected key=path"
  | invalidConfig => "Configuration error: invalid configuration"
  | unreadable => "IO error: cannot read file"
  | invalidAssets => "JSON parse error: invalid assets"
  | entryNotFound path => "Entry not found: " ++ path
  | noFiles scanRoot => "No files could be analyzed from " ++ scanRoot
  | unwritable path => "Report error: " ++ path
  | noWorkingDirectory => "Working directory not found"

end ScanError

/-- A result that passes a check is there. -/
theorem exists_ok_of_any {ε α : Type} {r : Except ε α} {p : α → Bool} (h : r.toOption.any p = true) :
    ∃ a, r = .ok a ∧ p a = true := by
  cases r with
  | error e => cases h
  | ok a => exact ⟨a, rfl, h⟩

end AssetAudit
