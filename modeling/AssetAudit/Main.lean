import AssetAudit.CommandLine.Help
import AssetAudit.CommandLine.Run
import AssetAudit.Time
import Std.Time.DateTime.Timestamp

/-!
# The program

Reads the files below the working directory, and what links there lead to, into a disk, runs, prints,
and writes back what changed.
-/
namespace AssetAudit.CommandLine

/-- Read a file. Bytes that are no text, or that cannot be read, are kept as binary. -/
def readNode (path : String) : IO Node := do
  let .ok bytes ← (IO.FS.readBinFile path).toBaseIO | return .binary
  return ((String.fromUTF8? bytes).map Node.text).getD .binary

/-- Read a link as one to the place that it leads to in the end, or to itself if it leads nowhere. -/
def readLink (path : String) : IO Node := do
  let .ok target ← (IO.FS.realPath path).toBaseIO | return .link path
  return .link target.toString

/-- Everything below a directory. Links are read as links. -/
partial def readTree (path : String) : IO (List (List String × Node)) := do
  let directory ← IO.FS.realPath path
  let entries ← directory.readDir
  let below ← entries.toList.mapM fun entry => do
    let inside := entry.path.toString
    let .ok about ← entry.path.symlinkMetadata.toBaseIO | return []
    match about.type with
    | .dir => readTree inside
    | .file => return [(Disk.namesOf inside, ← readNode inside)]
    | .symlink => return [(Disk.namesOf inside, ← readLink inside)]
    | _ => return []
  return (Disk.namesOf directory.toString, .directory) :: below.flatten

/-- Nodes together with more of them, each place once. -/
def joinNodes (nodes more : List (List String × Node)) : List (List String × Node) :=
  nodes ++ more.filter fun entry => !nodes.any (·.1 == entry.1)

/-- Nodes together with what their links lead to elsewhere. -/
partial def readTargets (nodes : List (List String × Node)) : IO (List (List String × Node)) := do
  let found ← nodes.mapM fun (_, node) => do
    let .link target := node | return []
    if nodes.any (·.1 == Disk.namesOf target) then return []
    let .ok below ← (readTree target).toBaseIO | return [(Disk.namesOf target, ← readNode target)]
    return below
  let joined := found.foldl joinNodes nodes
  if joined.length == nodes.length then return nodes else readTargets joined

/-- The disk as a run finds it. -/
def readDisk (arguments : List String) : IO Disk := do
  let here := (← IO.currentDir).toString
  let nodes ← readTree here
  let elsewhere ← match read {} arguments with
    | .accepted given => (given.one? .cwd).toList.mapM fun path => (readTree path).toBaseIO
    | _ => pure []
  let nodes ← readTargets ((elsewhere.filterMap (·.toOption)).foldl joinNodes nodes)
  return ⟨Disk.namesOf here, nodes⟩

/-- Write the files of a disk that another does not have. -/
def writeChanges (before after : Disk) : IO Unit :=
  after.nodes.forM fun (names, node) => do
    let path := "/" ++ "/".intercalate names
    match node with
    | .directory => if (before.node? names).isNone then IO.FS.createDirAll path
    | .text content => if before.nodes.lookup names != some node then IO.FS.writeFile path content
    | .binary | .link _ => pure ()

/-- A duration with two places, in the largest unit that leaves a whole part. -/
def durationText (nanoseconds : Nat) : String :=
  let (unit, name) :=
    if nanoseconds ≥ 1000000000 then (1000000000, "s")
    else if nanoseconds ≥ 1000000 then (1000000, "ms")
    else if nanoseconds ≥ 1000 then (1000, "µs")
    else (1, "ns")
  let hundredths := (nanoseconds * 100 + unit / 2) / unit
  toString (hundredths / 100) ++ "." ++ Instant.padded 2 (hundredths % 100) ++ name

/-- Run with the given arguments and return the exit code. -/
def execute (arguments : List String) : IO UInt32 := do
  let disk ← readDisk arguments
  let now ← Std.Time.Timestamp.now
  let scannedAt := (Instant.ofMilliseconds now.toMillisecondsSinceUnixEpoch.val).text
  let start ← IO.monoNanosNow
  let outcome := run disk scannedAt arguments
  match outcome with
  | .help => helpLines.forM IO.println
  | .version => IO.println versionText
  | .rejected => IO.eprintln "error: invalid arguments; try '--help'"
  | .failed error after =>
    writeChanges disk after
    IO.eprintln error.message
  | .done after printed =>
    writeChanges disk after
    printed.forM IO.println
    IO.println ("Scan completed in " ++ durationText ((← IO.monoNanosNow) - start))
  return outcome.exitCode.toUInt32

end AssetAudit.CommandLine

def main (arguments : List String) : IO UInt32 := AssetAudit.CommandLine.execute arguments
