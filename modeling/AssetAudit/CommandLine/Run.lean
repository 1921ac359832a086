import AssetAudit.CommandLine.Arguments
import AssetAudit.Configuration
import AssetAudit.Report.Output
import AssetAudit.Scan

/-!
# Running from the command line

Options come from a configuration file and then from the arguments, which take precedence. The report
of the scan is printed and written to the files that are named.
-/
namespace AssetAudit.CommandLine

/-- Key and path of an alias, without blanks around them. -/
def splitAlias (text : String) : Except ScanError (String × String) :=
  let chars := text.toList
  match chars.dropWhile (· != '=') with
  | _ :: path =>
    .ok (String.ofList (Text.trim (chars.takeWhile (· != '='))), String.ofList (Text.trim path))
  | [] => .error (.invalidAlias text)

/-- Options with what the arguments state (`apply`). -/
def apply (given : Given) (options : Options) : Except ScanError Options := do
  let aliases ← (given.many .importAlias).foldlM (fun table text => do
    let (key, path) ← splitAlias text
    return Options.insertAlias key path table) options.aliases
  let rules ← (given.many .enable).foldlM (fun rules name => rules.switch name true) options.rules
  let rules ← (given.many .disable).foldlM (fun rules name => rules.switch name false) rules
  return { options with
    entry := (given.one? .entry).getD options.entry
    dir := given.one? .dir <|> options.dir
    maxDepth := (given.one? .maxDepth).bind number? <|> options.maxDepth
    compile := ((given.one? .compile).bind truth?).getD options.compile
    unknownDir := (given.one? .unknownDir).getD options.unknownDir
    ignored := options.ignored ++ (given.many .ignore).map .pattern
    ignoredGlobals := options.ignoredGlobals ++ given.many .ignoredGlobalVar
    aliases := aliases
    rules := rules }

/-- What came of a run. -/
inductive Outcome where
  | help
  | version
  | rejected
  /-- The run failed; what was written before stays. -/
  | failed (error : ScanError) (disk : Disk)
  | done (disk : Disk) (printed : List String)

namespace Outcome

def exitCode : Outcome → Nat
  | help | version | done .. => 0
  | failed .. => 1
  | rejected => 2

end Outcome

/-- The working directory of a scan, as a path without detours. -/
def workingDirectory? (disk : Disk) (path : String) : Option String :=
  match disk.locate? path with
  | some names => if (disk.node? names).isSome then some ("/" ++ "/".intercalate names) else none
  | none => none

/-- Scan with the options of the given arguments. -/
def scan (disk : Disk) (scannedAt : String) (given : Given) :
    Except ScanError (Options × Report) := do
  let some directory := workingDirectory? disk ((given.one? .cwd).getD ".")
    | .error .noWorkingDirectory
  let options ← Configuration.load disk (given.one? .config) directory
  let options ← apply given options
  let report ← Scan.run disk directory options scannedAt
  return (options, report)

/-- Run with the given arguments (`run`). -/
def run (disk : Disk) (scannedAt : String) (arguments : List String) : Outcome :=
  match read {} arguments with
  | .help => .help
  | .version => .version
  | .rejected => .rejected
  | .accepted given =>
    match scan disk scannedAt given with
    | .error error => .failed error disk
    | .ok (options, report) =>
      let targets : Output.Targets := { json := given.one? .json, yaml := given.one? .yaml }
      let written := Output.write disk (targets.withConfigured options.output options.format) report
      match written.failure with
      | some error => .failed error written.disk
      | none => .done written.disk written.printed

end AssetAudit.CommandLine
