import AssetAudit.Script.Grammar.Markup
import AssetAudit.Script.Grammar.Type

/-!
# The script grammar

`parse` reads a unit into its tree, or tells the offset of the first token that cannot be read.
-/
namespace AssetAudit.Script

open Rule

/-- The rules of a dialect. -/
def grammar (d : Dialect) : Grammar Symbol
  | .statement => Grammar.statement d (Grammar.typeDeclaration d)
  | .declaration => Grammar.declaration d (Grammar.typeDeclaration d)
  | .block => Grammar.block .plain
  | .functionBody => Grammar.block .expression
  | .expression => Grammar.expression d
  | .sequence => Grammar.sequence
  | .arrow => Grammar.arrow d
  | .conditional => Grammar.conditional d
  | .binary level => Grammar.binary d level
  | .unary => Grammar.unary d
  | .update => Grammar.update
  | .postfixed => Grammar.postfixed d
  | .primary => Grammar.primary d
  | .creation => Grammar.creation d
  | .arguments => Grammar.arguments
  | .template => Grammar.template
  | .object => Grammar.object d
  | .pattern => Grammar.pattern
  | .parameters => Grammar.parameters d
  | .classBody => Grammar.classBody d
  | .element => Grammar.element d
  | .type => Grammar.type d
  | .union => Grammar.union
  | .intersection => Grammar.intersection
  | .typeOperator => Grammar.typeOperator
  | .typeArguments => Grammar.typeArguments
  | .typeParameters => Grammar.typeParameters
  | .objectType => Grammar.objectType d

def program : Rule Symbol :=
  .node .program (all [.opt (.glued .hashbang .token), .many (.sym .statement), .trivia,
    .check .unitEnd])

/-- The tree of a unit, or the offset at which it cannot be read on. -/
def parse (d : Dialect) (text : List Char) : Except Nat Tree :=
  match read (grammar d) ⟨d.typed, false, true⟩ (Grammar.depth text) program
      ⟨Cursor.ofText text, [], 0⟩ with
  | .done ⟨_, tree :: _, _⟩ => .ok tree
  | .done ⟨_, [], _⟩ => .ok (.mk .program .plain ⟨0, 0⟩ [])
  | .failed missed => .error missed

end AssetAudit.Script
