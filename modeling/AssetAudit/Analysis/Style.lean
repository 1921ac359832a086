import AssetAudit.Issue

/-!
# Styles that leak

Global selectors, critical global styles, complex selectors, `!important` and repeated rules, in style
sheets and in the style elements of pages. Rules of style modules are scoped by construction and do not
count.
-/
namespace AssetAudit.Analysis.Style

open AssetAudit.Style

/-- The mark that style modules put into class names. -/
def moduleMark : String := "side-effect-scanner-module"

/-- Whether a rule is one of a style module (`is_css_module_rule`). -/
def isModuleRule (rule : Rule) : Bool :=
  rule.selectors.any fun selector => Text.contains moduleMark.toList selector.toList

/-- Selectors that match by the kind of element alone. -/
def globalParts : List String :=
  ["*", "body", "html", "div", "span", "p", "a", "input", "button", "form", "h1", "h2", "h3", "h4",
    "h5", "h6", "ul", "ol", "li", "table", "tr", "td"]

def criticalParts : List String := ["body", "html", "*"]

def highRiskProperties : List String :=
  ["margin", "padding", "width", "height", "display", "position", "background", "color",
    "font-family", "font-size", "border"]

/-! ## Critical declarations -/

/-- Whether a property set to a value changes the layout of a whole document. Both are in lower
case. -/
def isDangerous (property value : String) : Bool :=
  let startsWithAny (starts : List String) : Bool :=
    starts.any fun start => Text.startsWith start.toList value.toList
  match property with
  | "display" => ["block", "flex", "grid", "none"].contains value
  | "position" => ["absolute", "fixed", "sticky"].contains value
  | "width" => ["100vw", "100%", "auto"].contains value
  | "height" => ["100vh", "100%", "auto"].contains value
  | "margin" => startsWithAny ["0", "auto", "unset", "initial"]
  | "padding" => startsWithAny ["0", "unset", "initial"]
  | "box-sizing" => value == "border-box"
  | _ => false

/-- The value of a declaration in lower case, without blanks around it. -/
def lowerValue (declaration : Declaration) : String :=
  String.ofList (Text.trim (Text.lowercase declaration.value).toList)

/-- What a declaration does to a whole document. -/
def criticalNotes (declaration : Declaration) : List String :=
  let property := Text.lowercase declaration.property
  let value := lowerValue declaration
  let text := declaration.property ++ ": " ++ declaration.value
  (if isDangerous property value then [text] else []) ++
    (if property == "box-sizing" && value == "border-box" then
      [text ++ " changes the box model of every element"] else []) ++
    (if (property == "margin" || property == "padding") && value == "0" then
      [text ++ " is a global reset"] else [])

/-- What the declarations of a rule do to a whole document (`critical_declarations`). -/
def criticalDeclarations (rule : Rule) : List String := rule.declarations.flatMap criticalNotes

/-- Whether a property set to a value is likely to break the layout of other applications
(`is_severe_side_effect`). -/
def isSevere (property value : String) : Bool :=
  [("display", "none"), ("position", "absolute"), ("position", "fixed"), ("width", "100vw"),
    ("height", "100vh")].contains (property, value)

/-! ## Selectors -/

def isGap (c : Char) : Bool := Text.isBlank c || Selector.isCombinator c

/-- The part of a selector before its first combinator. -/
def leadingPart (selector : String) : String :=
  String.ofList (selector.toList.takeWhile (!isGap ·))

def partsOf (selector : String) : List String :=
  (Selector.parts selector.toList).map String.ofList

/-- One more than the number of combinators, a run of blanks being one (`complexity`). -/
def complexity (selector : String) : Nat :=
  let text := selector.toList
  let runs := (Text.runs (!Text.isBlank ·) text).length
  text.countP Selector.isCombinator + runs + 1

/-- Above this a selector is too complex. -/
def complexityLimit : Nat := 4

/-- Whether a selector with a global part counts: without the exclusion it always does, and with it
only one that starts with a global part or has no class. -/
def countsAsGlobal (exclude : Bool) (selector : String) : Bool :=
  !exclude || globalParts.contains (leadingPart selector) ||
    !(partsOf selector).any fun part => part.toList.head? == some '.'

/-! ## Issues -/

/-- An issue of a file at a place that was found in the sources. -/
def issueAt (file : SurveyedFile) (origin : SourceMap.Origin) (kind : IssueKind)
    (severity : Severity) (message : String) : Issue :=
  (({ kind, severity, message, file := file.path } : Issue).located origin).inPage
    Issue.inlineStyleLabel file.isPage

abbrev Emit := IssueKind → Severity → String → Issue

def criticalIssue (rules : Rules) (emit : Emit) (rule : Rule) (selector : String) : List Issue :=
  if rules.criticalGlobalStyle && (partsOf selector).any criticalParts.contains then
    let declarations := criticalDeclarations rule
    if declarations.isEmpty then []
    else [emit (.criticalGlobalStyle selector declarations) .error
      ("Critical global style on " ++ selector ++ " affects the whole document: " ++
        ", ".intercalate declarations)]
  else []

def globalIssue (rules : Rules) (emit : Emit) (selector : String) : List Issue :=
  match (partsOf selector).find? globalParts.contains with
  | some part =>
    if rules.globalSelector && countsAsGlobal rules.excludeGlobalSelectorAfterClass selector then
      [emit (.globalSelector selector) .warning
        ("Global selector " ++ part ++ " styles elements outside the module")]
    else []
  | none => []

def sideEffectIssue (rules : Rules) (emit : Emit) (selectors : String)
    (declaration : Declaration) : List Issue :=
  let property := Text.lowercase declaration.property
  if rules.globalStyleSideEffect && highRiskProperties.contains property then
    let severe := isSevere property (lowerValue declaration)
    let effect :=
      if severe then "which can break the layout of other applications"
      else "which leaks into other applications"
    [emit (.globalStyleSideEffect selectors declaration.property declaration.value)
      (if severe then .error else .warning)
      ("Global rule " ++ selectors ++ " sets " ++ declaration.property ++ ": " ++
        declaration.value ++ ", " ++ effect)]
  else []

def globalImportantIssue (rules : Rules) (emit : Emit) (selectors : String)
    (declaration : Declaration) : List Issue :=
  if declaration.important && rules.importantDeclaration then
    [emit (.globalImportantDeclaration selectors declaration.property declaration.value) .error
      ("Global rule " ++ selectors ++ " forces " ++ declaration.property ++ ": " ++
        declaration.value ++ " with !important")]
  else []

/-- The issues of a rule that acts outside its module (`global_rule`). -/
def globalRuleIssues (rules : Rules) (emit : Emit) (rule : Rule) : List Issue :=
  (rule.selectors.flatMap fun selector =>
      criticalIssue rules emit rule selector ++ globalIssue rules emit selector) ++
    rule.declarations.flatMap fun declaration =>
      sideEffectIssue rules emit rule.selectorText declaration ++
        globalImportantIssue rules emit rule.selectorText declaration

/-- The selectors of a rule that are too complex (`complex_selectors`). -/
def complexIssues (rules : Rules) (emit : Emit) (rule : Rule) : List Issue :=
  if rules.complexSelector then
    rule.selectors.filterMap fun selector =>
      let n := complexity selector
      if n > complexityLimit then
        some (emit (.complexSelector selector n) .warning
          ("Selector " ++ selector ++ " is too complex (complexity " ++ toString n ++ ")"))
      else none
  else []

/-- The declarations of a rule that override those of others (`important_declarations`). -/
def importantIssues (rules : Rules) (emit : Emit) (rule : Rule) : List Issue :=
  if rules.importantDeclaration then
    (rule.declarations.filter (·.important)).map fun declaration =>
      emit (.importantDeclaration rule.selectorText declaration.property) .warning
        ("!important used on " ++ declaration.property ++ ": " ++ declaration.value)
  else []

def duplicateIssue (rules : Rules) (emit : Emit) (rule : Rule) (seen : List String) : List Issue :=
  if rules.duplicateRule && seen.contains rule.selectorText then
    [emit (.duplicateRule rule.selectorText) .warning
      ("Rule " ++ rule.selectorText ++ " is declared more than once")]
  else []

/-- The issues of the rules of a file, `seen` being the selectors before them. The style elements of a
page are separate sheets, so only their selectors are looked at. -/
def ruleIssues (audit : Audit) (file : SurveyedFile) : List String → List Rule → List Issue
  | _, [] => []
  | seen, rule :: rest =>
    match audit.reported? file rule.location with
    | none => ruleIssues audit file seen rest
    | some origin =>
      let rules := audit.options.rules
      let emit := issueAt file origin
      complexIssues rules emit rule ++
        if file.isPage then ruleIssues audit file seen rest
        else
          importantIssues rules emit rule ++ duplicateIssue rules emit rule seen ++
            ruleIssues audit file (rule.selectorText :: seen) rest

/-- The issues of a file (`analyze_file`). -/
def fileIssues (audit : Audit) (file : SurveyedFile) : List Issue :=
  match file.style? with
  | none => []
  | some facts =>
    ((facts.globalRules.filter (!isModuleRule ·)).flatMap fun rule =>
        match audit.reported? file rule.location with
        | some origin => globalRuleIssues audit.options.rules (issueAt file origin) rule
        | none => []) ++
      ruleIssues audit file [] (facts.rules.filter (!isModuleRule ·))

/-- The issues of all style sheets and pages (`analyze`). -/
def issues (audit : Audit) : List Issue :=
  (audit.inOrder (·.isStyle)).flatMap (fileIssues audit)

end AssetAudit.Analysis.Style
