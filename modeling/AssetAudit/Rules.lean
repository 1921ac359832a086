import AssetAudit.Error
import AssetAudit.Json.Value
import AssetAudit.Text.Lowercase

/-!
# Rule toggles

The switches of the detection rules. Every toggle has a name, under which it stands in a
configuration; on the command line hyphens, underscores and case do not count.
-/
namespace AssetAudit

structure Rules where
  excludeGlobalSelectorAfterClass : Bool := true
  unRemovedEventListener : Bool := true
  anonymousEventHandler : Bool := true
  inlineEventHandler : Bool := false
  dynamicElementAppend : Bool := false
  dynamicElementRemove : Bool := false
  dynamicElementInsert : Bool := false
  untrackedDynamicElement : Bool := false
  globalVarDeclaration : Bool := true
  builtInOverride : Bool := true
  criticalGlobalStyle : Bool := true
  globalSelector : Bool := true
  complexSelector : Bool := false
  importantDeclaration : Bool := false
  duplicateRule : Bool := true
  globalStyleSideEffect : Bool := false
  deriving DecidableEq, Repr, Inhabited

inductive Toggle where
  | excludeGlobalSelectorAfterClass
  | unRemovedEventListener
  | anonymousEventHandler
  | inlineEventHandler
  | dynamicElementAppend
  | dynamicElementRemove
  | dynamicElementInsert
  | untrackedDynamicElement
  | globalVarDeclaration
  | builtInOverride
  | criticalGlobalStyle
  | globalSelector
  | complexSelector
  | importantDeclaration
  | duplicateRule
  | globalStyleSideEffect
  deriving DecidableEq, Repr

namespace Toggle

def all : List Toggle :=
  [excludeGlobalSelectorAfterClass, unRemovedEventListener, anonymousEventHandler,
    inlineEventHandler, dynamicElementAppend, dynamicElementRemove, dynamicElementInsert,
    untrackedDynamicElement, globalVarDeclaration, builtInOverride, criticalGlobalStyle,
    globalSelector, complexSelector, importantDeclaration, duplicateRule, globalStyleSideEffect]

def name : Toggle → String
  | excludeGlobalSelectorAfterClass => "excludeGlobalSelectorAfterClass"
  | unRemovedEventListener => "unRemovedEventListener"
  | anonymousEventHandler => "anonymousEventHandler"
  | inlineEventHandler => "inlineEventHandler"
  | dynamicElementAppend => "dynamicElementAppend"
  | dynamicElementRemove => "dynamicElementRemove"
  | dynamicElementInsert => "dynamicElementInsert"
  | untrackedDynamicElement => "untrackedDynamicElement"
  | globalVarDeclaration => "globalVarDeclaration"
  | builtInOverride => "builtInOverride"
  | criticalGlobalStyle => "criticalGlobalStyle"
  | globalSelector => "globalSelector"
  | complexSelector => "complexSelector"
  | importantDeclaration => "importantDeclaration"
  | duplicateRule => "duplicateRule"
  | globalStyleSideEffect => "globalStyleSideEffect"

/-- What is compared of a name: no hyphens, no underscores, lower case. -/
def key (name : String) : String :=
  Text.lowercase (String.ofList (name.toList.filter fun c => c != '-' && c != '_'))

/-- The toggle a name stands for. -/
def find? (name : String) : Option Toggle := all.find? fun toggle => key toggle.name == key name

end Toggle

namespace Rules

def get (rules : Rules) : Toggle → Bool
  | .excludeGlobalSelectorAfterClass => rules.excludeGlobalSelectorAfterClass
  | .unRemovedEventListener => rules.unRemovedEventListener
  | .anonymousEventHandler => rules.anonymousEventHandler
  | .inlineEventHandler => rules.inlineEventHandler
  | .dynamicElementAppend => rules.dynamicElementAppend
  | .dynamicElementRemove => rules.dynamicElementRemove
  | .dynamicElementInsert => rules.dynamicElementInsert
  | .untrackedDynamicElement => rules.untrackedDynamicElement
  | .globalVarDeclaration => rules.globalVarDeclaration
  | .builtInOverride => rules.builtInOverride
  | .criticalGlobalStyle => rules.criticalGlobalStyle
  | .globalSelector => rules.globalSelector
  | .complexSelector => rules.complexSelector
  | .importantDeclaration => rules.importantDeclaration
  | .duplicateRule => rules.duplicateRule
  | .globalStyleSideEffect => rules.globalStyleSideEffect

def set (rules : Rules) (toggle : Toggle) (on : Bool) : Rules :=
  match toggle with
  | .excludeGlobalSelectorAfterClass => { rules with excludeGlobalSelectorAfterClass := on }
  | .unRemovedEventListener => { rules with unRemovedEventListener := on }
  | .anonymousEventHandler => { rules with anonymousEventHandler := on }
  | .inlineEventHandler => { rules with inlineEventHandler := on }
  | .dynamicElementAppend => { rules with dynamicElementAppend := on }
  | .dynamicElementRemove => { rules with dynamicElementRemove := on }
  | .dynamicElementInsert => { rules with dynamicElementInsert := on }
  | .untrackedDynamicElement => { rules with untrackedDynamicElement := on }
  | .globalVarDeclaration => { rules with globalVarDeclaration := on }
  | .builtInOverride => { rules with builtInOverride := on }
  | .criticalGlobalStyle => { rules with criticalGlobalStyle := on }
  | .globalSelector => { rules with globalSelector := on }
  | .complexSelector => { rules with complexSelector := on }
  | .importantDeclaration => { rules with importantDeclaration := on }
  | .duplicateRule => { rules with duplicateRule := on }
  | .globalStyleSideEffect => { rules with globalStyleSideEffect := on }

/-- Switch the rule of a name (`set`). -/
def switch (rules : Rules) (name : String) (on : Bool) : Except ScanError Rules :=
  match Toggle.find? name with
  | some toggle => .ok (rules.set toggle on)
  | none => .error (.unknownRule name)

/-- The toggles among the fields of a configuration. -/
def decode? (fields : List (String × Json.Value)) : Option Rules := do
  let known ← (Json.Value.object fields).record? (Toggle.all.map Toggle.name)
  Toggle.all.foldlM (fun rules toggle => do
    let on ← Json.optional? known toggle.name (rules.get toggle) Json.Value.bool?
    return rules.set toggle on) {}

end Rules
end AssetAudit
