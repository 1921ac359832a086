import AssetAudit.Page.Reader
import AssetAudit.Script.Extract
import AssetAudit.Style.Facts

/-!
# Facts of pages

The resources a page names or holds, and the facts of its scripts and style sheets. Places in a page
are those of the page; places in the facts of a script or sheet count from its own first character.
-/
namespace AssetAudit.Page

/-- A `style` attribute. -/
structure InlineStyle where
  element : String
  content : String
  location : Location
  deriving DecidableEq, Repr, Inhabited

/-- A style sheet inside the page. -/
structure StyleSheet where
  content : String
  location : Location
  deriving DecidableEq, Repr, Inhabited

structure ExternalStyle where
  href : String
  location : Location
  deriving DecidableEq, Repr, Inhabited

/-- A script inside the page. -/
structure InlineScript where
  content : String
  kind : String
  location : Location
  deriving DecidableEq, Repr, Inhabited

structure ExternalScript where
  src : String
  kind : String
  location : Location
  deriving DecidableEq, Repr, Inhabited

/-- An attribute that handles an event. -/
structure InlineHandler where
  element : String
  event : String
  code : String
  location : Location
  deriving DecidableEq, Repr, Inhabited

structure Resources where
  inlineStyles : List InlineStyle
  styleSheets : List StyleSheet
  externalStyles : List ExternalStyle
  inlineScripts : List InlineScript
  externalScripts : List ExternalScript
  inlineHandlers : List InlineHandler
  deriving DecidableEq, Repr, Inhabited

namespace Resources

def empty : Resources := ⟨[], [], [], [], [], []⟩

def merge (a b : Resources) : Resources where
  inlineStyles := a.inlineStyles ++ b.inlineStyles
  styleSheets := a.styleSheets ++ b.styleSheets
  externalStyles := a.externalStyles ++ b.externalStyles
  inlineScripts := a.inlineScripts ++ b.inlineScripts
  externalScripts := a.externalScripts ++ b.externalScripts
  inlineHandlers := a.inlineHandlers ++ b.inlineHandlers

end Resources

/-! ## Resources of an element -/

def defaultScriptKind : String := "text/javascript"

/-- Whether a link names a style sheet. -/
def linksStyle (tag : Tag) : Bool :=
  match tag.attribute? "rel" with
  | some rel => (Text.words rel.toList).any fun word => word.map Char.toLower == "stylesheet".toList
  | none => false

/-- The kind of a script, which a blank attribute leaves at its default. -/
def scriptKind (tag : Tag) : String :=
  match tag.attribute? "type" with
  | some kind => if Text.isBlankText kind then defaultScriptKind else Text.lowercase kind
  | none => defaultScriptKind

/-- The event an attribute handles. -/
def handledEvent? (handler : Attribute) : Option String :=
  match handler.name.toList with
  | 'o' :: 'n' :: event => if event.isEmpty then none else some (String.ofList event)
  | _ => none

/-- What one element, apart from those inside it, contributes (`visit_element`). -/
def elementResources (text : List Char) (span : Span) (tag : Tag) (raw : String) : Resources :=
  let location := Text.locate text span
  let base : Resources :=
    { Resources.empty with
      inlineStyles := match tag.attribute? "style" with
        | some style => [⟨tag.describe, style, location⟩]
        | none => []
      inlineHandlers := tag.attributes.filterMap fun handler =>
        (handledEvent? handler).map fun event =>
          ⟨tag.describe, event, handler.value, Text.locate text handler.span⟩ }
  match tag.name with
  | "style" => if raw.isEmpty then base else { base with styleSheets := [⟨raw, location⟩] }
  | "link" =>
    match linksStyle tag, tag.attribute? "href" with
    | true, some href => { base with externalStyles := [⟨href, location⟩] }
    | _, _ => base
  | "script" =>
    match tag.attribute? "src" with
    | some src => { base with externalScripts := [⟨src, scriptKind tag, location⟩] }
    | none => { base with inlineScripts := [⟨raw, scriptKind tag, location⟩] }
  | _ => base

mutual

def resourcesOf (text : List Char) : Element → Resources
  | .mk span tag raw children =>
    (elementResources text span tag raw).merge (resourcesOfAll text children)

def resourcesOfAll (text : List Char) : List Element → Resources
  | [] => Resources.empty
  | element :: rest => (resourcesOf text element).merge (resourcesOfAll text rest)

end

/-! ## Facts -/

structure Facts where
  resources : Resources
  script : Script.Facts
  style : Style.Facts
  deriving Inhabited

/-- Kinds of scripts that are run. -/
def executedKinds : List String :=
  ["text/javascript", "application/javascript", "application/ecmascript", "text/ecmascript",
    "module"]

/-- The facts of a script of a page. One of another kind has none, nor has one that cannot be
read. -/
def scriptFacts (ignoredGlobals : List String) (script : InlineScript) : Script.Facts :=
  if Text.isBlankText script.content || !executedKinds.contains script.kind then Script.Facts.empty
  else
    match Script.extract ⟨.javascript, script.kind != "module", ignoredGlobals⟩ script.content with
    | .ok facts => facts
    | .error _ => Script.Facts.empty

def sheetFacts (exclude : Bool) (sheet : StyleSheet) : Style.Facts :=
  if Text.isBlankText sheet.content then Style.Facts.empty
  else Style.extract exclude sheet.content

/-- The facts of a page (`extract`). -/
def extract (ignoredGlobals : List String) (exclude : Bool) (code : String) : Facts :=
  let text := code.toList
  let resources := resourcesOfAll text (readPage text)
  { resources
    script := (resources.inlineScripts.map (scriptFacts ignoredGlobals)).foldl
      Script.Facts.merge Script.Facts.empty
    style := (resources.styleSheets.map (sheetFacts exclude)).foldl
      Style.Facts.merge Style.Facts.empty }

end AssetAudit.Page
