import AssetAudit.Text.Position
import AssetAudit.Text.Search

/-!
# Facts of a script

What a script does to the world around it: the globals it writes, the listeners it registers and
removes, the elements it makes and moves, the modules it reads, and the names it declares. Facts of
several units are joined by `Facts.merge`.
-/
namespace AssetAudit.Script

/-- How a global comes to be. -/
inductive GlobalKind where
  | assignment
  | var
  deriving DecidableEq, Repr

namespace GlobalKind

def name : GlobalKind → String
  | assignment => "assignment"
  | var => "var"

end GlobalKind

structure GlobalVariable where
  name : String
  kind : GlobalKind
  code : String
  location : Location
  deriving DecidableEq, Repr

/-- The calls that register and remove listeners. -/
inductive ListenerMethod where
  | addEventListener
  | on
  | removeEventListener
  | off
  | jqueryOn
  | jqueryOff
  deriving DecidableEq, Repr

namespace ListenerMethod

def name : ListenerMethod → String
  | addEventListener => "addEventListener"
  | on => "on"
  | removeEventListener => "removeEventListener"
  | off => "off"
  | jqueryOn => "jQuery.on"
  | jqueryOff => "jQuery.off"

/-- Whether the call registers a listener. -/
def adds : ListenerMethod → Bool
  | addEventListener | on | jqueryOn => true
  | removeEventListener | off | jqueryOff => false

end ListenerMethod

/-- The name of a handler that is a function written in place. -/
def anonymousHandler : String := "anonymous"

/-- The name of a handler, an event or an element that cannot be told from the text. -/
def unknownName : String := "unknown"

structure Listener where
  method : ListenerMethod
  /-- The literal name, `[variable: x]` for a variable, `unknown` for another expression. -/
  event : String
  element : String
  code : String
  location : Location
  /-- The name by which the call refers to the handler. -/
  definition : String
  anonymous : Bool
  deriving DecidableEq, Repr

namespace Listener

/-- What a registration and its removal have in common. -/
def key (l : Listener) : String := l.element ++ ":" ++ l.event

/-- Whether the event is known only when the script runs (`has_dynamic_event`). -/
def hasDynamicEvent (l : Listener) : Bool :=
  Text.startsWith "[variable:".toList l.event.toList || l.event == unknownName

end Listener

/-- The operations that make, move and replace elements. -/
inductive ElementMethod where
  | createElement
  | createTextNode
  | appendChild
  | insertBefore
  | removeChild
  | innerHtml
  | outerHtml
  | insertAdjacentHtml
  deriving DecidableEq, Repr

namespace ElementMethod

def name : ElementMethod → String
  | createElement => "createElement"
  | createTextNode => "createTextNode"
  | appendChild => "appendChild"
  | insertBefore => "insertBefore"
  | removeChild => "removeChild"
  | innerHtml => "innerHTML"
  | outerHtml => "outerHTML"
  | insertAdjacentHtml => "insertAdjacentHTML"

end ElementMethod

structure ElementOperation where
  element : String
  method : ElementMethod
  parent : Option String
  reference : Option String
  code : String
  location : Location
  deriving DecidableEq, Repr

inductive ImportKind where
  | static
  | dynamic
  | require
  deriving DecidableEq, Repr

namespace ImportKind

def name : ImportKind → String
  | static => "static"
  | dynamic => "dynamic"
  | require => "require"

end ImportKind

inductive SpecifierKind where
  | default
  | named
  | namespace
  deriving DecidableEq, Repr

namespace SpecifierKind

def name : SpecifierKind → String
  | default => "default"
  | named => "named"
  | «namespace» => "namespace"

end SpecifierKind

structure ImportSpecifier where
  kind : SpecifierKind
  imported : Option String
  localName : String
  deriving DecidableEq, Repr

structure ImportDeclaration where
  source : String
  kind : ImportKind
  specifiers : List ImportSpecifier
  location : Location
  deriving DecidableEq, Repr

structure ExportDeclaration where
  names : List String
  source : Option String
  location : Location
  deriving DecidableEq, Repr

structure FunctionDeclaration where
  name : String
  params : List String
  method : Bool
  location : Location
  deriving DecidableEq, Repr

structure VariableDeclaration where
  name : String
  kind : String
  location : Location
  deriving DecidableEq, Repr

/-- All facts of one or more units, each list in the order of the text. -/
structure Facts where
  globals : List GlobalVariable := []
  added : List Listener := []
  removed : List Listener := []
  created : List ElementOperation := []
  appended : List ElementOperation := []
  inserted : List ElementOperation := []
  detached : List ElementOperation := []
  markupWrites : List ElementOperation := []
  imports : List ImportDeclaration := []
  exports : List ExportDeclaration := []
  functions : List FunctionDeclaration := []
  declarations : List VariableDeclaration := []
  deriving DecidableEq, Repr, Inhabited

namespace Facts

def empty : Facts := {}

def merge (a b : Facts) : Facts where
  globals := a.globals ++ b.globals
  added := a.added ++ b.added
  removed := a.removed ++ b.removed
  created := a.created ++ b.created
  appended := a.appended ++ b.appended
  inserted := a.inserted ++ b.inserted
  detached := a.detached ++ b.detached
  markupWrites := a.markupWrites ++ b.markupWrites
  imports := a.imports ++ b.imports
  exports := a.exports ++ b.exports
  functions := a.functions ++ b.functions
  declarations := a.declarations ++ b.declarations

/-- Every module the units refer to, in the order of the text (`module_specifiers`). -/
def specifiers (f : Facts) : List String :=
  let imported := f.imports.map (fun i => (i.location, i.source))
  let exported := f.exports.filterMap (fun e => e.source.map (fun s => (e.location, s)))
  let before (a b : Location × String) : Bool :=
    a.1.start.line < b.1.start.line ||
      (a.1.start.line == b.1.start.line && a.1.start.column ≤ b.1.start.column)
  ((imported ++ exported).mergeSort before).map (·.2)

/-- Where `name` is declared: as a global, else as a function, else as a variable (`find_definition`). A
dotted name that is not declared itself stands for its last part, a function or else a global. -/
def definition? (f : Facts) (name : String) : Option Location :=
  if name.isEmpty || name == anonymousHandler || name == unknownName then none
  else
    let global (n : String) := (f.globals.find? (·.name == n)).map (·.location)
    let function (n : String) := (f.functions.find? (·.name == n)).map (·.location)
    let declared (n : String) := (f.declarations.find? (·.name == n)).map (·.location)
    (global name <|> function name <|> declared name) <|>
      (match Text.splitLast? '.' name.toList with
        | some (_, last) =>
          let last := String.ofList last
          function last <|> global last
        | none => none)

end Facts
end AssetAudit.Script
