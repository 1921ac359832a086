import AssetAudit.Text.Blank
import AssetAudit.Text.Position

/-!
# Elements of pages

A page is a forest of elements. `mayContain` and `voidTags` are the part of the content model that
decides where an element without an end tag ends.
-/
namespace AssetAudit.Page

structure Attribute where
  name : String
  value : String
  span : Span
  deriving DecidableEq, Repr, Inhabited

/-- Name and attributes of an element, names in lower case. -/
structure Tag where
  name : String
  attributes : List Attribute
  deriving DecidableEq, Repr, Inhabited

/-- An element with the text of a script or style sheet, or with the elements inside it. -/
inductive Element where
  | mk (span : Span) (tag : Tag) (raw : String) (children : List Element)
  deriving Inhabited

namespace Tag

/-- The value of the first attribute of a name (`attr`). -/
def attribute? (tag : Tag) (name : String) : Option String :=
  (tag.attributes.find? (·.name == name)).map (·.value)

/-- The tag as a selector would name it: with its id and its classes (`describe`). -/
def describe (tag : Tag) : String :=
  let id := match tag.attribute? "id" with
    | some id => if id.isEmpty then "" else "#" ++ id
    | none => ""
  let classes := match tag.attribute? "class" with
    | some names => (Text.words names.toList).map fun name => "." ++ String.ofList name
    | none => []
  tag.name ++ id ++ String.join classes

end Tag

/-! ## Content model -/

/-- Elements that never have an end tag. -/
def voidTags : List String :=
  ["area", "base", "basefont", "bgsound", "br", "col", "command", "embed", "frame", "hr", "image",
    "img", "input", "isindex", "keygen", "link", "menuitem", "meta", "nextid", "param", "source",
    "track", "wbr"]

/-- The other elements that are known by name. -/
def plainTags : List String :=
  ["a", "abbr", "address", "article", "aside", "audio", "b", "bdi", "bdo", "blockquote", "body",
    "button", "canvas", "caption", "cite", "code", "colgroup", "data", "datalist", "dd", "del",
    "details", "dfn", "dialog", "div", "dl", "dt", "em", "fieldset", "figcaption", "figure",
    "footer", "form", "h1", "h2", "h3", "h4", "h5", "h6", "head", "header", "hgroup", "html", "i",
    "iframe", "ins", "kbd", "label", "legend", "li", "main", "map", "mark", "math", "menu",
    "meter", "nav", "noscript", "object", "ol", "optgroup", "option", "output", "p", "picture",
    "pre", "progress", "q", "rb", "rp", "rt", "rtc", "ruby", "s", "samp", "script", "section",
    "select", "slot", "small", "span", "strong", "style", "sub", "summary", "sup", "svg", "table",
    "tbody", "td", "template", "textarea", "tfoot", "th", "thead", "time", "title", "tr", "u",
    "ul", "var", "video"]

/-- Elements whose start ends a paragraph. -/
def paragraphBreaks : List String :=
  ["address", "article", "aside", "blockquote", "details", "div", "dl", "fieldset", "figcaption",
    "figure", "footer", "form", "h1", "h2", "h3", "h4", "h5", "h6", "header", "hr", "main", "nav",
    "ol", "p", "pre", "section"]

/-- Elements that the end of the page ends. -/
def pageTags : List String := ["html", "head", "body"]

def isVoid (name : String) : Bool := voidTags.contains name

def isKnown (name : String) : Bool := isVoid name || plainTags.contains name

/-- Whether an end tag of one name may look past open elements for one of the other: custom elements
are all of one kind. -/
def sameKind (a b : String) : Bool := a == b || (!isKnown a && !isKnown b)

/-- Whether the start of an element leaves an open element open. -/
def mayContain (parent child : String) : Bool :=
  match parent with
  | "li" => child != "li"
  | "dt" | "dd" => child != "dt" && child != "dd"
  | "p" => !paragraphBreaks.contains child
  | "colgroup" => child == "col"
  | "rb" | "rt" | "rp" => child != "rb" && child != "rt" && child != "rp"
  | "optgroup" => child != "optgroup"
  | "tr" => child != "tr"
  | "td" | "th" => child != "td" && child != "th" && child != "tr"
  | _ => true

end AssetAudit.Page
