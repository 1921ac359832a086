import AssetAudit.Script.Grammar.Symbol

/-!
# Markup inside scripts

Elements, fragments and their attributes. The names of an opening and its closing tag need not agree,
and either may be missing.
-/
namespace AssetAudit.Script.Grammar

open Rule

def tagName : R :=
  .chain (.token .markupName .markup)
    [.mk .markup .plain [] (.seq (.either (mark ".") (mark ":")) (.token .markupName .markup))]

/-- An expression between braces, which may be missing. -/
def expressionHole : R :=
  .node .markup (braces (.opt (.either spread (ref .sequence))))

def tagAttribute : R :=
  .either
    (.node .markup (.seq tagName (.opt (.seq (mark "=") (any [
      .token .markupQuoted .string, expressionHole, ref .element])))))
    expressionHole

def elementChildren : R :=
  .many (any [.glued .markupText .token, expressionHole, ref .element])

def element (d : Dialect) : R :=
  let content := all [mark ">", elementChildren, mark "</", .opt tagName, mark ">"]
  .node .markup (.bracketed true (.seq (op "<" "/") (.either content
    (all [tagName, optTyped d (ref .typeArguments), .many tagAttribute,
      .either (mark "/>") content]))))

end AssetAudit.Script.Grammar
