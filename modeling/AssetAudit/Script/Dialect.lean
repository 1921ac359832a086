import AssetAudit.Path

/-!
# Dialects

The languages a script can be written in, told by the extension of its file.
-/
namespace AssetAudit.Script

/-- The languages a unit can be written in. -/
inductive Dialect where
  | javascript
  | typescript
  | tsx
  deriving DecidableEq, Repr

namespace Dialect

/-- Whether units may hold types (`is_typescript`). -/
def typed (d : Dialect) : Bool := d != javascript

/-- Whether expressions may hold markup. -/
def markup (d : Dialect) : Bool := d != typescript

/-- The dialect of files with an extension, with or without its dot (`from_extension`). -/
def ofExtension? (extension : String) : Option Dialect :=
  let bare := Path.bareExtension extension
  if ["js", "jsx", "mjs", "cjs"].contains bare then some .javascript
  else if ["ts", "mts", "cts"].contains bare then some .typescript
  else if bare == "tsx" then some .tsx
  else none

end Dialect
end AssetAudit.Script
