import AssetAudit.Script.Facts
import AssetAudit.Script.Grammar
import AssetAudit.Text.Blank
import AssetAudit.Text.Glob

/-!
# Drawing facts from a script

Every node of the tree of a unit is visited once, parents before children; `factsAt` says what the
node alone contributes. In a classic script the variables declared and the undeclared names assigned
at its top are globals too, and come first. Globals whose names an ignored pattern accepts are left
out at the end.
-/
namespace AssetAudit.Script

/-- One fact of a unit. -/
inductive Fact where
  | global (g : GlobalVariable)
  | listener (l : Listener)
  | operation (o : ElementOperation)
  | imported (i : ImportDeclaration)
  | exported (e : ExportDeclaration)
  | function (f : FunctionDeclaration)
  | declared (v : VariableDeclaration)

/-- The names of the object that holds the globals. -/
def globalObjects : List String := ["window", "globalThis", "global"]

section Nodes

variable (unit : List Char)

/-- The text of a node with its blanks collapsed. -/
def Tree.compact (t : Tree) : String := Text.compact (t.text unit)

def Tree.location (t : Tree) : Location := Text.locate unit t.span

def isQuote (c : Char) : Bool := c == '"' || c == '\''

/-- The content of a string literal, or of a template without substitutions (`string_value`). -/
def stringValue? (t : Tree) : Option String :=
  match t.kind with
  | .string => some (String.ofList (Text.trimMatches isQuote (t.chars unit)))
  | .template =>
    if t.children.any (·.kind == .substitution) then none
    else some (String.ofList (Text.trimMatches (· == backtick) (t.chars unit)))
  | _ => none

/-- The arguments of a call, comments left out (`arguments`). -/
def callArguments (call : Tree) : List Tree :=
  match call.child? .arguments with
  | some list =>
    if list.kind == .arguments then list.named.filter (·.kind != .comment) else []
  | none => []

/-- The selector of an element looked up as `$(..)` or `jQuery(..)` (`jquery_element`). -/
def jqueryElement? (t : Tree) : Option String :=
  if t.kind != .call then none
  else match t.child? .callee with
    | some callee =>
      let name := callee.text unit
      if callee.kind == .identifier && (name == "$" || name == "jQuery") then
        let selector := match callArguments t with
          | first :: _ => (stringValue? unit first).getD (first.compact unit)
          | [] => ""
        some ("jQuery('" ++ selector ++ "')")
      else none
    | none => none

/-- The name of an element: the selector it is looked up by, or else its text (`element_name`). -/
def elementName (t : Tree) : String :=
  match t.kind with
  | .identifier | .thisWord => t.text unit
  | _ => (jqueryElement? unit t).getD (t.compact unit)

/-- The name of an event: the text of a literal, or the variable that holds it (`event_name`). -/
def eventName (t : Tree) : String :=
  match stringValue? unit t with
  | some value => value
  | none => if t.kind == .identifier then "[variable: " ++ t.text unit ++ "]" else unknownName

/-- The name by which a handler is known; a bound function is known by the name of the function
(`definition_name`). -/
def definitionName : Tree → String
  | .mk .identifier r s cs => (Tree.mk .identifier r s cs).text unit
  | .mk .arrow _ _ _ => anonymousHandler
  | .mk .functionExpression _ _ _ => anonymousHandler
  | .mk .member r s cs => (Tree.mk .member r s cs).compact unit
  | .mk .call _ _ (.mk .member _ _ (target :: rest) :: _) =>
    match rest.find? (·.role == .property) with
    | some property => if property.text unit == "bind" then definitionName target else unknownName
    | none => unknownName
  | _ => unknownName

/-- Whether a handler is a function written in place, or holds one (`is_anonymous`). -/
def isAnonymous (t : Tree) : Bool :=
  t.kind == .arrow || t.kind == .functionExpression ||
    ["=>", "function(", "function ("].any (fun mark => Text.contains mark.toList (t.chars unit))

/-- The name that a value is bound to, given the nodes around it, the nearest first (`binding_name`). -/
def boundName (node : Tree) : List Tree → String
  | [] => unknownName
  | parent :: around =>
    match parent.kind with
    | .parenthesized | .awaiting | .cast | .nonNull => boundName parent around
    | .declarator =>
      match parent.child? .name with
      | some name => if node.role == .value then name.compact unit else unknownName
      | none => unknownName
    | .assignment =>
      match parent.child? .left with
      | some left => if node.role == .right then left.compact unit else unknownName
      | none => unknownName
    | _ => unknownName

/-- Whether an object literal has a property of that name (`object_has_key`). -/
def hasKey (object : Tree) (key : String) : Bool :=
  object.named.any fun entry =>
    match entry.kind with
    | .pair =>
      match entry.child? .key with
      | some k => String.ofList (Text.trimMatches isQuote (k.chars unit)) == key
      | none => false
    | .shorthand => entry.text unit == key
    | _ => false

/-- Whether a call of `createElement` describes a view and makes no element: the calls of a view library,
and calls with properties or children (`is_view_factory_call`). -/
def isViewFactory (object : Tree) (arguments : List Tree) : Bool :=
  let name := object.chars unit
  if name == "React".toList || Text.endsWith ".React".toList name then true
  else match arguments with
    | [] | [_] => false
    | [_, options] => !(options.kind == .object && hasKey unit options "is")
    | _ => true

/-! ## What each node contributes -/

def isGlobalObject (t : Tree) : Bool :=
  t.kind == .identifier && globalObjects.contains (t.text unit)

def globalFact (name : String) (kind : GlobalKind) (node : Tree) : GlobalVariable :=
  ⟨name, kind, node.text unit, node.location unit⟩

def operationFact (node : Tree) (method : ElementMethod) (element : String)
    (parent reference : Option String) : Fact :=
  .operation ⟨element, method, parent, reference, node.text unit, node.location unit⟩

def markupMethod? (property : String) : Option ElementMethod :=
  if property == "innerHTML" then some .innerHtml
  else if property == "outerHTML" then some .outerHtml
  else none

/-- What an assignment does to globals and elements (`visit_assignment`). -/
def assignmentFacts (node : Tree) : List Fact :=
  match node.child? .left with
  | none => []
  | some left =>
    match left.kind, left.child? .object, left.child? .property, left.child? .index with
    | .member, some object, some property, _ =>
      let name := property.text unit
      (if isGlobalObject unit object then [.global (globalFact unit name .assignment node)] else []) ++
        (match markupMethod? name with
          | some method => [operationFact unit node method (elementName unit object) none none]
          | none => [])
    | .subscript, some object, _, some index =>
      match isGlobalObject unit object, stringValue? unit index with
      | true, some name => [.global (globalFact unit name .assignment node)]
      | _, _ => []
    | _, _, _, _ => []

def listenerMethod? (property : String) (jquery : Bool) : Option ListenerMethod :=
  match property with
  | "addEventListener" => some .addEventListener
  | "removeEventListener" => some .removeEventListener
  | "on" => some (if jquery then .jqueryOn else .on)
  | "off" => some (if jquery then .jqueryOff else .off)
  | _ => none

/-- A call of a method on an object (`visit_member_call`). -/
def memberCallFacts (visit : Visit) (object : Tree) (property : String)
    (arguments : List Tree) : List Fact :=
  let node := visit.node
  match property, arguments with
  | "createElement", _ =>
    if isViewFactory unit object arguments then []
    else [operationFact unit node .createElement (boundName unit node visit.around) none none]
  | "createTextNode", _ =>
    [operationFact unit node .createTextNode (boundName unit node visit.around) none none]
  | "appendChild", _ =>
    [operationFact unit node .appendChild (firstName arguments) (some (elementName unit object)) none]
  | "removeChild", _ =>
    [operationFact unit node .removeChild (firstName arguments) (some (elementName unit object)) none]
  | "insertBefore", _ =>
    let reference := match arguments with
      | _ :: second :: _ => if second.kind == .nullLiteral then none else some (second.compact unit)
      | _ => none
    [operationFact unit node .insertBefore (firstName arguments) (some (elementName unit object))
      reference]
  | "insertAdjacentHTML", _ =>
    [operationFact unit node .insertAdjacentHtml (elementName unit object) none none]
  | _, event :: handler :: _ =>
    let jquery := jqueryElement? unit object
    match listenerMethod? property jquery.isSome with
    | some method =>
      [.listener ⟨method, eventName unit event, jquery.getD (elementName unit object),
        node.text unit, node.location unit, definitionName unit handler, isAnonymous unit handler⟩]
    | none => []
  | _, _ => []
where
  firstName : List Tree → String
    | first :: _ => first.compact unit
    | [] => unknownName

def importFact (source : String) (kind : ImportKind) (specifiers : List ImportSpecifier)
    (node : Tree) : Fact :=
  .imported ⟨source, kind, specifiers, node.location unit⟩

/-- The module that the first argument names. -/
def loadedModule (kind : ImportKind) (arguments : List Tree) (node : Tree) : List Fact :=
  match arguments with
  | first :: _ =>
    match stringValue? unit first with
    | some source => [importFact unit source kind [] node]
    | none => []
  | [] => []

/-- The facts of a call (`visit_call`). -/
def callFacts (visit : Visit) : List Fact :=
  let node := visit.node
  match node.child? .callee with
  | none => []
  | some callee =>
    let arguments := callArguments node
    match callee.kind with
    | .importWord => loadedModule unit .dynamic arguments node
    | .identifier =>
      if callee.text unit == "require" then loadedModule unit .require arguments node else []
    | .member =>
      match callee.child? .object, callee.child? .property with
      | some object, some property =>
        memberCallFacts unit visit object (property.text unit) arguments
      | _, _ => []
    | _ => []

def importSpecifiers (part : Tree) : List ImportSpecifier :=
  match part.kind with
  | .identifier => [⟨.default, none, part.text unit⟩]
  | .namespaceImport =>
    match part.named with
    | name :: _ => [⟨.namespace, none, name.text unit⟩]
    | [] => []
  | .namedImports =>
    part.named.filterMap fun specifier =>
      if specifier.kind == .importSpecifier then
        (specifier.child? .name).map fun name =>
          let imported := name.text unit
          let localName := match specifier.child? .localName with
            | some node => node.text unit
            | none => imported
          ⟨.named, some imported, localName⟩
      else none
  | _ => []

/-- The import that a statement makes (`visit_import`). -/
def importStatementFacts (node : Tree) : List Fact :=
  match (node.child? .source).bind (stringValue? unit) with
  | none => []
  | some source =>
    let clauses := node.named.filter (·.kind == .importClause)
    let specifiers := clauses.flatMap fun clause => clause.named.flatMap (importSpecifiers unit)
    [importFact unit source .static specifiers node]

def declaratorNames (declaration : Tree) : List String :=
  declaration.named.filterMap fun d => (d.child? .name).map (·.text unit)

def exportedNames (child : Tree) : List String :=
  match child.kind with
  | .defaultWord => ["default"]
  | .star => ["*"]
  | .namespaceExport => [child.compact unit]
  | .exportClause =>
    child.named.filterMap fun specifier =>
      if specifier.kind == .exportSpecifier then
        (specifier.child? .localName <|> specifier.child? .name).map (·.text unit)
      else none
  | _ => []

def declaredNames (declaration : Tree) : List String :=
  match declaration.kind with
  | .lexicalDeclaration | .varDeclaration => declaratorNames unit declaration
  | _ =>
    match declaration.child? .name with
    | some name => [name.text unit]
    | none => []

/-- What a statement exports (`visit_export`). -/
def exportFact (node : Tree) : Fact :=
  let declared := match node.child? .declaration with
    | some declaration => declaredNames unit declaration
    | none => []
  .exported ⟨node.children.flatMap (exportedNames unit) ++ declared,
    (node.child? .source).bind (stringValue? unit), node.location unit⟩

/-- A parameter without its type and its default. -/
def parameterText (p : Tree) : String :=
  let target := match p.kind with
    | .assignmentPattern => p.child? .left
    | .parameter => p.child? .pattern
    | _ => none
  (target.getD p).compact unit

/-- The function or method that a node declares (`visit_function`). -/
def functionFacts (node : Tree) (method : Bool) : List Fact :=
  match node.child? .name with
  | none => []
  | some name =>
    let params := match node.child? .parameters with
      | some list => (list.named.filter (·.kind != .comment)).map (parameterText unit)
      | none => []
    [.function ⟨name.text unit, params, method, node.location unit⟩]

/-- The variable that a node declares (`visit_declarator`). -/
def variableFacts (visit : Visit) : List Fact :=
  match visit.node.child? .name with
  | none => []
  | some name =>
    if name.kind != .identifier then []
    else
      let kind := match visit.around with
        | parent :: _ =>
          if parent.kind == .varDeclaration then "var"
          else match parent.children with
            | first :: _ => first.text unit
            | [] => "let"
        | [] => "var"
      [.declared ⟨name.text unit, kind, visit.node.location unit⟩]

/-- The facts that a node contributes by itself (`walk`). -/
def factsAt (visit : Visit) : List Fact :=
  match visit.node.kind with
  | .assignment => assignmentFacts unit visit.node
  | .call => callFacts unit visit
  | .importStatement => importStatementFacts unit visit.node
  | .exportStatement => [exportFact unit visit.node]
  | .functionDeclaration | .generatorDeclaration => functionFacts unit visit.node false
  | .method => functionFacts unit visit.node true
  | .declarator => variableFacts unit visit
  | _ => []

/-! ## Classic scripts -/

/-- The names that a statement declares for the whole script. -/
def scriptNames (statement : Tree) : List String :=
  match statement.kind with
  | .varDeclaration | .lexicalDeclaration => declaratorNames unit statement
  | .functionDeclaration | .generatorDeclaration | .classDeclaration =>
    match statement.child? .name with
    | some name => [name.text unit]
    | none => []
  | _ => []

/-- The globals that a statement at the top of a classic script makes. -/
def scriptGlobalsAt (declared : List String) (statement : Tree) : List GlobalVariable :=
  match statement.kind with
  | .varDeclaration =>
    statement.named.filterMap fun d =>
      match d.child? .name with
      | some name =>
        if name.kind == .identifier then some (globalFact unit (name.text unit) .var d) else none
      | none => none
  | .expressionStatement =>
    match statement.named with
    | node :: _ =>
      if node.kind != .assignment then []
      else match node.child? .left with
        | some left =>
          if left.kind == .identifier && !declared.contains (left.text unit) then
            [globalFact unit (left.text unit) .assignment node]
          else []
        | none => []
    | [] => []
  | _ => []

/-- The globals that the statements at the top of a classic script make (`collect_script_globals`). -/
def scriptGlobals (program : Tree) : List GlobalVariable :=
  let declared := program.named.flatMap (scriptNames unit)
  program.named.flatMap (scriptGlobalsAt unit declared)

end Nodes

/-! ## The facts of a unit -/

namespace Fact

def global? : Fact → Option GlobalVariable
  | global g => some g
  | _ => none

def listener? (adds : Bool) : Fact → Option Listener
  | listener l => if l.method.adds == adds then some l else none
  | _ => none

def operation? (methods : List ElementMethod) : Fact → Option ElementOperation
  | operation o => if methods.contains o.method then some o else none
  | _ => none

def imported? : Fact → Option ImportDeclaration
  | imported i => some i
  | _ => none

def exported? : Fact → Option ExportDeclaration
  | exported e => some e
  | _ => none

def function? : Fact → Option FunctionDeclaration
  | function f => some f
  | _ => none

def declared? : Fact → Option VariableDeclaration
  | declared v => some v
  | _ => none

end Fact

/-- Sort facts into their lists. -/
def Facts.ofList (facts : List Fact) : Facts where
  globals := facts.filterMap Fact.global?
  added := facts.filterMap (Fact.listener? true)
  removed := facts.filterMap (Fact.listener? false)
  created := facts.filterMap (Fact.operation? [.createElement, .createTextNode])
  appended := facts.filterMap (Fact.operation? [.appendChild])
  inserted := facts.filterMap (Fact.operation? [.insertBefore])
  detached := facts.filterMap (Fact.operation? [.removeChild])
  markupWrites := facts.filterMap (Fact.operation? [.innerHtml, .outerHtml, .insertAdjacentHtml])
  imports := facts.filterMap Fact.imported?
  exports := facts.filterMap Fact.exported?
  functions := facts.filterMap Fact.function?
  declarations := facts.filterMap Fact.declared?

/-- How a unit is read. -/
structure Reading where
  dialect : Dialect
  /-- A classic script, whose top-level names are globals. -/
  classic : Bool := false
  /-- Patterns of global names to leave out. -/
  ignoredGlobals : List String := []

/-- The facts of the tree of a unit. -/
def treeFacts (reading : Reading) (unit : List Char) (tree : Tree) : Facts :=
  let facts := Facts.ofList (tree.visits.flatMap (factsAt unit))
  let script := if reading.classic then scriptGlobals unit tree else []
  { facts with
    globals := (script ++ facts.globals).filter
      (fun g => !Text.Glob.anyAccepts reading.ignoredGlobals g.name) }

/-- Where a unit cannot be read: line, and column in bytes, both counted from one. -/
structure SyntaxError where
  line : Nat
  column : Nat
  deriving DecidableEq, Repr

namespace SyntaxError

def message (e : SyntaxError) : String :=
  "Syntax error at " ++ toString e.line ++ ":" ++ toString e.column

/-- The line and the column in bytes of an offset (`first_syntax_error`). -/
def atOffset (text : List Char) (offset : Nat) : SyntaxError :=
  let before := Text.takeBytes text offset
  ⟨before.count '\n' + 1, Text.byteLength (before.reverse.takeWhile (· != '\n')) + 1⟩

end SyntaxError

/-- The facts of a unit (`extract`). A unit that cannot be read to its end has none. -/
def extract (reading : Reading) (code : String) : Except SyntaxError Facts :=
  let unit := code.toList
  match parse reading.dialect unit with
  | .ok tree => .ok (treeFacts reading unit tree)
  | .error offset => .error (SyntaxError.atOffset unit offset)

end AssetAudit.Script
