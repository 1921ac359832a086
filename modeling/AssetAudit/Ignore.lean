import AssetAudit.Asset
import AssetAudit.Options
import AssetAudit.SourceMap.Source
import AssetAudit.Text.Glob

/-!
# Ignored code

A filter is a list of rules over files and lines. A pattern or a file rule covers whole files; a line
rule covers lines of the files it designates, and for a file the first rule that designates it counts.
-/
namespace AssetAudit

inductive IgnoreRule where
  /-- Files whose path the pattern accepts. -/
  | pattern (glob : String)
  /-- One file; `resolved` is its path from the root. -/
  | file (path resolved : String)
  /-- Lines of the file, or of the files whose path is accepted by `path` as a pattern. -/
  | lines (path resolved : String) (numbers : List Nat)
  deriving DecidableEq, Repr

namespace IgnoreRule

/-- A path as seen from the root, in normal form (`resolve`). -/
def resolve (root path : String) : String := Path.normalize (Path.join root path)

/-- The rule that an entry of the ignore list states (`from_entry`). -/
def ofEntry (root : String) : IgnoreEntry → IgnoreRule
  | .pattern glob => .pattern glob
  | .file path none => .file path (resolve root path)
  | .file path (some numbers) => .lines path (resolve root path) numbers

/-- Whether the file or the pattern of a rule designates a path (`designates`). -/
def designates (root path : String) : IgnoreRule → Bool
  | .pattern glob => Text.Glob.accepts glob path
  | .file _ resolved => resolved == resolve root path
  | .lines glob resolved _ => resolved == resolve root path || Text.Glob.accepts glob path

/-- Whether the rule covers the whole of a file. -/
def covers (root path : String) : IgnoreRule → Bool
  | .lines .. => false
  | rule => rule.designates root path

/-- The lines a rule covers in a file it designates. -/
def linesOf? (root path : String) : IgnoreRule → Option (List Nat)
  | .lines glob resolved numbers =>
    if (IgnoreRule.lines glob resolved numbers).designates root path then some numbers else none
  | _ => none

end IgnoreRule

structure IgnoreFilter where
  rules : List IgnoreRule
  root : String
  deriving Repr

namespace IgnoreFilter

/-- What a bundler adds to every bundle (`DEFAULT_IGNORE_PATTERNS`). -/
def runtimePatterns : List String := ["webpack/runtime/*"]

def ofEntries (root : String) (entries : List IgnoreEntry) : IgnoreFilter :=
  ⟨entries.map (IgnoreRule.ofEntry root) ++ runtimePatterns.map .pattern, root⟩

/-- The filter with more rules at its end (`with_rules`). -/
def append (filter : IgnoreFilter) (rules : List IgnoreRule) : IgnoreFilter :=
  { filter with rules := filter.rules ++ rules }

/-- Whether a rule covers the whole file (`should_ignore_file`). -/
def ignoresFile (filter : IgnoreFilter) (path : String) : Bool :=
  filter.rules.any (·.covers filter.root (Path.forward path))

/-- The lines of the first line rule that designates a file (`ignored_lines`). -/
def ignoredLines? (filter : IgnoreFilter) (path : String) : Option (List Nat) :=
  filter.rules.findSome? (·.linesOf? filter.root (Path.forward path))

/-- Whether a line rule covers a line of a file (`should_ignore_line`). -/
def ignoresLine (filter : IgnoreFilter) (path : String) (line : Nat) : Bool :=
  ((filter.ignoredLines? path).getD []).contains line

/-- Whether an issue of an asset is dropped, given its line and the source it is attributed to
(`should_ignore`). Where the source is known only the rules on it count; otherwise those on the asset, and
line rules on any source of its map. Nothing on a page is dropped. -/
def ignores (filter : IgnoreFilter) (asset : Asset) (line : Option Nat) (source : Option String) :
    Bool :=
  if asset.isPage then false
  else
    match source.filter SourceMap.isKnown with
    | some source => filter.ignoresFile source || line.any (filter.ignoresLine source)
    | none =>
      filter.ignoresFile asset.name ||
        line.any fun line =>
          filter.ignoresLine asset.name line ||
            (SourceMap.sourcesOf asset.sourceMap?).any (filter.ignoresLine · line)

end IgnoreFilter
end AssetAudit
