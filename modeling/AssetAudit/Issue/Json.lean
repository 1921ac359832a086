import AssetAudit.Issue
import AssetAudit.Json.Value

/-!
# Issues as JSON

An issue is an object: the type of its kind and the fields of that kind, then what all issues have.
Fields that have no value are left out. Reading takes the fields in any order and passes over others.
-/
namespace AssetAudit

open Json (Value)

namespace Position

def toValue (p : Position) : Value := .object [("line", .ofNat p.line), ("column", .ofNat p.column)]

def decode? (v : Value) : Option Position := do
  let fields ← v.record? ["line", "column"]
  let line ← Json.required? fields "line" Value.nat?
  let column ← Json.required? fields "column" Value.nat?
  return ⟨line, column⟩

end Position

namespace Location

def toValue (l : Location) : Value := .object [("start", l.start.toValue), ("end", l.stop.toValue)]

def decode? (v : Value) : Option Location := do
  let fields ← v.record? ["start", "end"]
  let start ← Json.required? fields "start" Position.decode?
  let stop ← Json.required? fields "end" Position.decode?
  return ⟨start, stop⟩

end Location

namespace Severity

def decode? : Value → Option Severity
  | .text name | .object [(name, .null)] => all.find? (·.name == name)
  | _ => none

end Severity

namespace IssueKind

/-- A field that is there only if it has a value. -/
def optionalField (key : String) (text : Option String) : List (String × Value) :=
  match text with
  | some text => [(key, .text text)]
  | none => []

/-- The fields of a kind, without its type. -/
def fields : IssueKind → List (String × Value)
  | globalSelector selector | duplicateRule selector => [("selector", .text selector)]
  | criticalGlobalStyle selector declarations =>
    [("selector", .text selector), ("declarations", .ofStrings declarations)]
  | complexSelector selector complexity =>
    [("selector", .text selector), ("complexity", .ofNat complexity)]
  | importantDeclaration selector property =>
    [("selector", .text selector), ("property", .text property)]
  | globalImportantDeclaration selector property value
  | globalStyleSideEffect selector property value =>
    [("selector", .text selector), ("property", .text property), ("value", .text value)]
  | globalVarDeclaration name kind => [("varName", .text name), ("varType", .text kind)]
  | builtInOverride name => [("varName", .text name)]
  | unremovedEventListener event element | anonymousEventHandler event element
  | inlineEventHandler event element => [("event", .text event), ("element", .text element)]
  | untrackedDynamicElement element method =>
    [("element", .text element), ("method", .text method)]
  | dynamicElementAppend element parent operation
  | dynamicElementRemove element parent operation =>
    [("element", .text element), ("parent", .text parent), ("operation", .text operation)]
  | dynamicElementInsert element parent reference operation =>
    [("element", .text element), ("parent", .text parent)] ++
      optionalField "reference" reference ++ [("operation", .text operation)]

/-- The types in their order. A type may be given by its number. -/
def typeNames : List String :=
  ["global_selector", "critical_global_style", "complex_selector", "important_declaration",
    "global_important_declaration", "duplicate_rule", "global_style_side_effect",
    "global_var_declaration", "built_in_override", "unremoved_event_listener",
    "anonymous_event_handler", "inline_event_handler", "untracked_dynamic_element",
    "dynamic_element_append", "dynamic_element_insert", "dynamic_element_remove"]

def typeOf? : Value → Option String
  | .text name => some name
  | v => v.nat?.bind (typeNames[·]?)

/-- The kind of a type, with its fields. -/
def ofFields? (type : String) (fields : List (String × Value)) : Option IssueKind := do
  let text (key : String) : Option String := Json.required? fields key Value.string?
  match type with
  | "global_selector" => return .globalSelector (← text "selector")
  | "critical_global_style" =>
    let declarations ← Json.required? fields "declarations" (Value.all? Value.string?)
    return .criticalGlobalStyle (← text "selector") declarations
  | "complex_selector" =>
    let complexity ← Json.required? fields "complexity" Value.nat?
    return .complexSelector (← text "selector") complexity
  | "important_declaration" => return .importantDeclaration (← text "selector") (← text "property")
  | "global_important_declaration" =>
    return .globalImportantDeclaration (← text "selector") (← text "property") (← text "value")
  | "duplicate_rule" => return .duplicateRule (← text "selector")
  | "global_style_side_effect" =>
    return .globalStyleSideEffect (← text "selector") (← text "property") (← text "value")
  | "global_var_declaration" => return .globalVarDeclaration (← text "varName") (← text "varType")
  | "built_in_override" => return .builtInOverride (← text "varName")
  | "unremoved_event_listener" =>
    return .unremovedEventListener (← text "event") (← text "element")
  | "anonymous_event_handler" => return .anonymousEventHandler (← text "event") (← text "element")
  | "inline_event_handler" => return .inlineEventHandler (← text "event") (← text "element")
  | "untracked_dynamic_element" =>
    return .untrackedDynamicElement (← text "element") (← text "method")
  | "dynamic_element_append" =>
    return .dynamicElementAppend (← text "element") (← text "parent") (← text "operation")
  | "dynamic_element_insert" =>
    let reference ← Json.optional? fields "reference" none (Value.optional? Value.string?)
    return .dynamicElementInsert (← text "element") (← text "parent") reference
      (← text "operation")
  | "dynamic_element_remove" =>
    return .dynamicElementRemove (← text "element") (← text "parent") (← text "operation")
  | _ => none

end IssueKind

namespace Issue

def toValue (issue : Issue) : Value :=
  .object ([("type", .text issue.typeName)] ++ issue.kind.fields ++
    [("severity", .text issue.severity.name), ("message", .text issue.message),
      ("file", .text issue.file)] ++
    (match issue.position with
      | some position => [("position", position.toValue)]
      | none => []) ++
    IssueKind.optionalField "code" issue.code ++ IssueKind.optionalField "source" issue.source)

/-- The fields all issues have. -/
def commonKeys : List String := ["severity", "message", "file", "position", "code", "source"]

def decode? : Value → Option Issue
  | .object all => do
    let common ← (Value.object all).record? commonKeys
    let own := all.filter fun field => !commonKeys.contains field.1
    let type ← Json.required? own "type" IssueKind.typeOf?
    let kind ← IssueKind.ofFields? type own
    let severity ← Json.required? common "severity" Severity.decode?
    let message ← Json.required? common "message" Value.string?
    let file ← Json.required? common "file" Value.string?
    let position ← Json.optional? common "position" none (Value.optional? Location.decode?)
    let code ← Json.optional? common "code" none (Value.optional? Value.string?)
    let source ← Json.optional? common "source" none (Value.optional? Value.string?)
    return { kind, severity, message, file, position, code, source }
  | _ => none

end Issue
end AssetAudit
