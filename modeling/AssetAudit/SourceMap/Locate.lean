import AssetAudit.Asset
import AssetAudit.Disk
import AssetAudit.Options
import AssetAudit.SourceMap.Mapping
import AssetAudit.SourceMap.Source
import AssetAudit.Text.Position

/-!
# Places in the sources

`locate` tells where in the sources a place of an asset comes from. It needs a map that leads from both
ends of the place to a source, and the source file on disk; without the file the place keeps the
coordinates of the source and the source is unknown, without the map everything stays as it is.
-/
namespace AssetAudit.SourceMap

/-- A place and the source it is in, with the code found there. -/
structure Origin where
  location : Option Location
  source : String
  /-- The file that was read. -/
  file : Option String
  code : Option String
  lineText : Option String
  deriving DecidableEq, Repr

def Origin.line? (origin : Origin) : Option Nat := origin.location.map (·.start.line)

def Origin.isKnown (origin : Origin) : Bool := SourceMap.isKnown origin.source

/-- What an asset without a usable map counts as a part of: itself if assets are sources
(`fallback_source`). -/
def fallbackSource (options : Options) (asset : Asset) : String :=
  if !options.compile || options.dir.isSome then asset.name else unknownSource

def fallback (options : Options) (asset : Asset) (location : Option Location) : Origin :=
  ⟨location, fallbackSource options asset, none, none, none⟩

/-- The place in a source that a place of the asset comes from (`original_position`). -/
def placeInSource? (map : Mapping) (place : Position) : Option (Position × String) :=
  let line := place.line - 1
  let column := place.column - 1
  if place.line == 0 || line ≥ wordSize || column ≥ wordSize then none
  else
    match map.lookup? line column with
    | some ⟨tokenLine, some source, sourceLine, sourceColumn⟩ =>
      if tokenLine == line && !source.isEmpty then
        some (⟨sourceLine + 1, sourceColumn + 1⟩, normalizeSource source)
      else none
    | _ => none

/-- The code of a place on its first line, to its end or to the end of the line (`slice_code`). -/
def codeOf (line : List Char) (place : Location) : List Char :=
  let start := place.start.column - 1
  let rest := line.drop start
  Text.trim (if place.start.line == place.stop.line then rest.take (place.stop.column - start)
    else rest)

/-- The place in a source with the code of the source file. -/
def inSource (disk : Disk) (root source : String) (place : Location) : Origin :=
  let file := Path.join root source
  match disk.read? file with
  | some content =>
    let line := (Text.lines content.toList)[place.start.line - 1]?
    let code := line.map fun line => codeOf line place
    ⟨some place, source, some file, (code.filter (!·.isEmpty)).map String.ofList,
      line.map String.ofList⟩
  | none => ⟨some place, unknownSource, none, none, none⟩

/-- Both ends of a place in the sources, and the source of its start. -/
def ends? (asset : Asset) (place : Location) : Option (Location × String) := do
  if asset.isPage then none
  let text ← asset.sourceMap?
  let map ← decode? text
  let (start, source) ← placeInSource? map place.start
  let (stop, _) ← placeInSource? map place.stop
  return (⟨start, stop⟩, source)

/-- Where in the sources a place of an asset comes from (`resolve`). -/
def locate (disk : Disk) (options : Options) (root : String) (asset : Asset)
    (location : Option Location) : Origin :=
  match location with
  | none => fallback options asset none
  | some place =>
    match ends? asset place with
    | some (place, source) => inSource disk root source place
    | none => fallback options asset (some place)

end AssetAudit.SourceMap
