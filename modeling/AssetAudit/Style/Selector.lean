import AssetAudit.Text.Blank
import AssetAudit.Text.Search

/-!
# Selectors

A selector is a text. `normalize` gives it one spelling: single spaces between its parts and none
around combinators, with quoted text left alone. `parts` are the compound selectors between the
combinators, and `isGlobal` says whether a selector reaches outside the module that states it.
-/
namespace AssetAudit.Style.Selector

def isCombinator (c : Char) : Bool := c == '>' || c == '+' || c == '~'

def isQuote (c : Char) : Bool := c == '"' || c == '\''

/-- `quote` is the quotation mark that is open, `pending` says that blanks were passed, and `last`
is the last character kept. -/
def normalizeFrom (quote : Option Char) (pending : Bool) (last : Option Char) :
    List Char → List Char
  | [] => []
  | c :: rest =>
    match quote with
    | some q => c :: normalizeFrom (if c = q then none else some q) pending (some c) rest
    | none =>
      if Text.isBlank c then normalizeFrom none true last rest
      else if isCombinator c then c :: normalizeFrom none false (some c) rest
      else
        let opened := if isQuote c then some c else none
        let spaced := pending && match last with
          | some d => !isCombinator d
          | none => false
        if spaced then ' ' :: c :: normalizeFrom opened false (some c) rest
        else c :: normalizeFrom opened false (some c) rest

/-- Blanks outside quotation marks become one space, or nothing beside a combinator
(`normalize_selector`). -/
def normalize (text : List Char) : List Char := normalizeFrom none false none (Text.trim text)

/-- The compound selectors between blanks and combinators (`selector_parts`). -/
def parts (text : List Char) : List (List Char) :=
  Text.runs (fun c => Text.isBlank c || isCombinator c) text

/-- Selectors that stand for the whole document (`GLOBAL_SELECTORS`). -/
def documentSelectors : List String := ["body", "html", "*", ":root"]

/-- Whether a part other than the last one is a class. -/
def hasClassAncestor (text : List Char) : Bool :=
  (parts text).dropLast.any (·.head? == some '.')

/-- Whether a selector acts outside its module. If `exclude` is on, one below a class does not. -/
def isGlobal (exclude : Bool) (selector : String) : Bool :=
  let text := Text.trim selector.toList
  documentSelectors.contains (String.ofList text) || !exclude || !hasClassAncestor text

/-- Whether one of the selectors of a rule is global (`is_global_rule`). -/
def anyGlobal (exclude : Bool) (selectors : List String) : Bool :=
  selectors.any (isGlobal exclude)

end AssetAudit.Style.Selector
