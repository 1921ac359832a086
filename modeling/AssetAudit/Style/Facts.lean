import AssetAudit.Style.Sheet

/-!
# Facts of style sheets

What the items of a sheet say: its rules, those that act outside their module, its media queries,
imports and keyframes. A rule knows the media query right around it, and a media query lists the rules
found inside it, nested ones included.
-/
namespace AssetAudit.Style

structure Rule where
  selectors : List String
  declarations : List Declaration
  location : Location
  media : Option String
  deriving DecidableEq, Repr, Inhabited

structure MediaQuery where
  query : String
  rules : List Rule
  location : Location
  deriving DecidableEq, Repr, Inhabited

structure ImportRule where
  url : String
  location : Location
  deriving DecidableEq, Repr, Inhabited

structure Keyframes where
  name : String
  location : Location
  deriving DecidableEq, Repr, Inhabited

structure Facts where
  /-- Every selector of a rule once, in the order of their characters. -/
  selectors : List String
  rules : List Rule
  globalRules : List Rule
  mediaQueries : List MediaQuery
  imports : List ImportRule
  keyframes : List Keyframes
  deriving DecidableEq, Repr, Inhabited

/-- The selectors of a rule as one text (`selector_text`). -/
def Rule.selectorText (rule : Rule) : String := ", ".intercalate rule.selectors

namespace Facts

def empty : Facts := ⟨[], [], [], [], [], []⟩

/-- Selectors in order with one more, which is not repeated. -/
def insertSelector (selector : String) : List String → List String
  | [] => [selector]
  | other :: rest =>
    if selector == other then other :: rest
    else if selector < other then selector :: other :: rest
    else other :: insertSelector selector rest

def insertSelectors (selectors all : List String) : List String :=
  selectors.foldr insertSelector all

/-- The facts of one sheet and then those of another. -/
def merge (a b : Facts) : Facts where
  selectors := insertSelectors a.selectors b.selectors
  rules := a.rules ++ b.rules
  globalRules := a.globalRules ++ b.globalRules
  mediaQueries := a.mediaQueries ++ b.mediaQueries
  imports := a.imports ++ b.imports
  keyframes := a.keyframes ++ b.keyframes

end Facts

/-- How facts are drawn from a sheet. -/
structure Policy where
  text : List Char
  /-- Whether selectors below a class are left out of the global ones. -/
  exclude : Bool

/-- The facts of a rule without its nested items; a rule without selectors has none (`visit_rule`). -/
def ruleFacts (policy : Policy) (media : Option String) (span : Span) (selectors : List String)
    (block : List Item) : Facts :=
  if selectors.isEmpty then Facts.empty
  else
    let declarations := block.filterMap fun
      | .declaration d => some d
      | _ => none
    let rule : Rule := ⟨selectors, declarations, Text.locate policy.text span, media⟩
    { Facts.empty with
      selectors := Facts.insertSelectors selectors []
      rules := [rule]
      globalRules := if Selector.anyGlobal policy.exclude selectors then [rule] else [] }

mutual

/-- The facts of an item and of those nested in it (`walk`). -/
def itemFacts (policy : Policy) (media : Option String) : Item → Facts
  | .rule span selectors block =>
    (ruleFacts policy media span selectors block).merge (itemsFacts policy media block)
  | .declaration _ => Facts.empty
  | .media span query block =>
    let inner := itemsFacts policy (some query) block
    let whole : MediaQuery := ⟨query, inner.rules, Text.locate policy.text span⟩
    { inner with mediaQueries := inner.mediaQueries ++ [whole] }
  | .importing span target =>
    { Facts.empty with imports := [⟨target, Text.locate policy.text span⟩] }
  | .keyframes span name =>
    { Facts.empty with keyframes := [⟨name, Text.locate policy.text span⟩] }
  | .group block => itemsFacts policy media block

def itemsFacts (policy : Policy) (media : Option String) : List Item → Facts
  | [] => Facts.empty
  | item :: rest => (itemFacts policy media item).merge (itemsFacts policy media rest)

end

/-- The facts of a sheet (`extract`). -/
def extract (exclude : Bool) (code : String) : Facts :=
  let text := code.toList
  itemsFacts ⟨text, exclude⟩ none (readSheet text)

end AssetAudit.Style
