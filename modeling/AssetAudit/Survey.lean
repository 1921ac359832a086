import AssetAudit.DisableComment
import AssetAudit.Ignore
import AssetAudit.Page.Facts

/-!
# Surveys

A survey is what is known about the assets of a scan: the facts of each, and the rules that their
disabling comments add. A file is left out of the analyses, but not of the survey, if it is disabled
or cannot be parsed.
-/
namespace AssetAudit

inductive Findings where
  | script (facts : Script.Facts) (typed : Bool)
  | style (facts : Style.Facts)
  | page (facts : Page.Facts)
  /-- A file of a kind that is not analysed. -/
  | unknown
  /-- A file that cannot be parsed. -/
  | broken
  /-- A file that a rule or a comment leaves out. -/
  | disabled (kind : FileKind)

namespace Findings

def name : Findings → String
  | script .. => "js"
  | style _ => "css"
  | page _ => "html"
  | unknown => "unknown"
  | broken => "error"
  | disabled _ => "disabled"

/-- Whether there are facts to analyse. -/
def isParsed : Findings → Bool
  | script .. | style _ | page _ => true
  | unknown | broken | disabled _ => false

end Findings

structure SurveyedFile where
  asset : Asset
  findings : Findings

namespace SurveyedFile

def path (file : SurveyedFile) : String := file.asset.name

def fileName (file : SurveyedFile) : String := (Path.fileName? file.path).getD file.path

def extension (file : SurveyedFile) : String := file.asset.extension

def isPage (file : SurveyedFile) : Bool :=
  match file.findings with
  | .page _ => true
  | _ => false

def isScript (file : SurveyedFile) : Bool :=
  match file.findings with
  | .script .. => true
  | _ => false

def isStyle (file : SurveyedFile) : Bool :=
  match file.findings with
  | .style _ => true
  | _ => false

/-- The facts of a script file (`js_info`). -/
def ownScript? (file : SurveyedFile) : Option Script.Facts :=
  match file.findings with
  | .script facts _ => some facts
  | _ => none

/-- The facts of a script file, or those of the scripts in a page (`script_info`). -/
def script? (file : SurveyedFile) : Option Script.Facts :=
  match file.findings with
  | .script facts _ => some facts
  | .page facts => some facts.script
  | _ => none

/-- The facts of a style sheet, or those of the style sheets in a page (`css_info`). -/
def style? (file : SurveyedFile) : Option Style.Facts :=
  match file.findings with
  | .style facts => some facts
  | .page facts => some facts.style
  | _ => none

def page? (file : SurveyedFile) : Option Page.Facts :=
  match file.findings with
  | .page facts => some facts
  | _ => none

end SurveyedFile

structure Survey where
  files : List SurveyedFile
  /-- The line rules of disabling comments. -/
  rules : List IgnoreRule

namespace Survey

/-- The number of files with facts (`parsed_count`). -/
def parsedCount (survey : Survey) : Nat := survey.files.countP (·.findings.isParsed)

/-- What the text of an asset shows, by the extension of its name (`parse_asset`). -/
def examine (options : Options) (asset : Asset) : Findings :=
  let exclude := options.rules.excludeGlobalSelectorAfterClass
  let extension := asset.extension
  if extension == ".html" || extension == ".htm" then
    .page (Page.extract options.ignoredGlobals exclude asset.content)
  else if extension == ".css" then .style (Style.extract exclude asset.content)
  else
    match Script.Dialect.ofExtension? extension with
    | none => .unknown
    | some dialect =>
      match Script.extract ⟨dialect, false, options.ignoredGlobals⟩ asset.content with
      | .ok facts => .script facts dialect.typed
      | .error _ => .broken

/-- Whether an asset is left out as a whole: a rule covers a source of its map, or a comment says so.
Comments in pages do not count. -/
def isDisabled (filter : IgnoreFilter) (asset : Asset) : Bool :=
  (SourceMap.sourcesOf asset.sourceMap?).any filter.ignoresFile ||
    (FileKind.ofExtension asset.extension != .page && DisableComment.disablesFile asset.content)

def surveyFile (options : Options) (filter : IgnoreFilter) (asset : Asset) : SurveyedFile :=
  if isDisabled filter asset then ⟨asset, .disabled (FileKind.ofExtension asset.extension)⟩
  else ⟨asset, examine options asset⟩

/-- The rule for the lines that the comments of an asset switch off. -/
def lineRule? (filter : IgnoreFilter) (asset : Asset) : Option IgnoreRule :=
  if FileKind.ofExtension asset.extension == .page || isDisabled filter asset then none
  else
    let numbers := DisableComment.disabledLines asset.content
    if numbers.isEmpty then none
    else some (IgnoreRule.ofEntry filter.root (.file asset.name (some numbers)))

/-- The survey of assets: style sheets, then scripts, then pages (`parse_assets`). -/
def ofAssets (options : Options) (filter : IgnoreFilter) (assets : AssetMap) : Survey :=
  let ordered := assets.styles ++ assets.scripts ++ assets.pages
  ⟨ordered.map (surveyFile options filter), ordered.filterMap (lineRule? filter)⟩

end Survey
end AssetAudit
