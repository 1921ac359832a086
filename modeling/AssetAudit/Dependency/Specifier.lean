import AssetAudit.Disk
import AssetAudit.Options

/-!
# Module specifiers

How the specifier of an import leads to a file. An alias, a leading dot or a leading slash gives a
candidate path, any other specifier names a package and leads nowhere. The candidate itself is tried
first, then with each extension, then as a directory with an index file.
-/
namespace AssetAudit.Dependency

structure Settings where
  /-- The directory of root-relative specifiers and aliases. -/
  base : String
  maxDepth : Option Nat := none
  aliases : List (String × String) := []
  ignorePaths : List String := ["node_modules"]
  extensions : List String := [".js", ".jsx", ".ts", ".tsx", ".css", ".scss", ".less"]
  deriving Repr

namespace Settings

/-- The settings that the options of a scan state (`from_scan_options`). -/
def ofOptions (base : String) (options : Options) : Settings :=
  { base, maxDepth := options.maxDepth, aliases := options.aliases,
    ignorePaths := options.ignorePaths }

/-- Whether a path holds one of the ignored texts (`is_ignored`). -/
def ignoresPath (settings : Settings) (path : String) : Bool :=
  let path := (Path.forward path).toList
  settings.ignorePaths.any fun text => !text.isEmpty && Text.contains text.toList path

end Settings

/-- Whether an alias stands at the start of a specifier and ends at a border of its segments. -/
def aliasMatches (specifier key : List Char) : Bool :=
  !key.isEmpty &&
    match Text.after? key specifier with
    | some rest => rest.isEmpty || key.getLast? == some '/' || rest.head? == some '/'
    | none => false

/-- The longest alias that matches a specifier, and its target (`matching_alias`). -/
def matchingAlias? (aliases : List (String × String)) (specifier : String) :
    Option (String × String) :=
  aliases.foldl (fun best (name, target) =>
    if aliasMatches specifier.toList name.toList then
      match best with
      | some (other, _) => if name.utf8ByteSize < other.utf8ByteSize then best else some (name, target)
      | none => some (name, target)
    else best) none

/-- The path a specifier stands for, in normal form. -/
def candidate? (settings : Settings) (directory specifier : String) : Option String :=
  match matchingAlias? settings.aliases specifier with
  | some (name, target) =>
    let rest := (specifier.toList.drop name.length).dropWhile (· == '/')
    let base := Path.join settings.base target
    some (Path.normalize (if rest.isEmpty then base else Path.join base (String.ofList rest)))
  | none =>
    match specifier.toList with
    | '.' :: _ => some (Path.normalize (Path.join directory specifier))
    | '/' :: rest => some (Path.normalize (Path.join settings.base (String.ofList rest)))
    | _ => none

/-- The paths tried for a candidate, in their order. -/
def variants (settings : Settings) (candidate : String) : List String :=
  candidate :: (settings.extensions.map (candidate ++ ·) ++
    settings.extensions.map fun extension => Path.join candidate ("index" ++ extension))

/-- What stands behind the candidate in the paths tried for it. -/
def Settings.endings (settings : Settings) : List String :=
  "" :: (settings.extensions ++ settings.extensions.map ("index" ++ ·) ++
    settings.extensions.map ("/index" ++ ·))

/-- The file the specifier of an import leads to, from the directory of the importing file
(`resolve_import_path`). -/
def resolve? (disk : Disk) (settings : Settings) (directory specifier : String) : Option String :=
  (candidate? settings directory specifier).bind fun candidate =>
    (variants settings candidate).find? disk.isFile

end AssetAudit.Dependency
