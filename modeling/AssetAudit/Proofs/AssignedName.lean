import AssetAudit.Error
import AssetAudit.Proofs.NodeFact
import AssetAudit.Proofs.ReadingOption

/-!
# Names that are assigned in classic scripts

A global of kind assignment is recorded for an assignment to a property of the global object, wherever it
stands, or for one to a bare name at the top of a classic script. The latter is a leak only if the script does
not declare the name, and a declaration counts if it has the name by itself: `let a` does, `let {a} = o`
does not. So a bare assignment is recorded exactly if no declaration at the top has the name by itself and no
pattern ignores it (`recorded_assignments`); one to a name that only a destructuring pattern binds is recorded
although the name is declared (`destructured_name_recorded`).
-/
namespace AssetAudit.Script

/-! ## Names bound in patterns -/

mutual

/-- Whether a pattern binds a name. Of what has a default only the part to its left counts, and a key or the
default itself binds nothing. -/
def Tree.binds (unit : List Char) (x : String) : Tree → Bool
  | .mk .identifier r s cs => (Tree.mk .identifier r s cs).text unit == x
  | .mk .pattern r s [] => (Tree.mk .pattern r s []).text unit == x
  | .mk .pattern _ _ cs => forestBinds unit x (cs.any (·.role == .left)) cs
  | .mk .assignmentPattern _ _ cs => forestBinds unit x true cs
  | _ => false

/-- Whether one of some parts of a pattern binds a name, one to the left of a default if `left` is set. -/
def forestBinds (unit : List Char) (x : String) (left : Bool) : List Tree → Bool
  | [] => false
  | t :: ts => (!left || t.role == .left) && t.binds unit x || forestBinds unit x left ts

end

/-- Whether a declaration binds a name inside a destructuring pattern. -/
def DeclaresInPattern (unit : List Char) (statement : Tree) (x : String) : Prop :=
  statement.DeclaresVariables ∧ ∃ declarator ∈ statement.children, declarator.kind = .declarator ∧
    ∃ name ∈ declarator.child? .name, name.kind = .pattern ∧ name.binds unit x = true

instance (statement : Tree) : Decidable statement.DeclaresVariables :=
  inferInstanceAs (Decidable (_ ∨ _))

instance (unit : List Char) (statement : Tree) (x : String) :
    Decidable (DeclaresInPattern unit statement x) :=
  inferInstanceAs (Decidable (_ ∧ _))

/-! ## Assignments to properties -/

/-- Whether a node is an assignment to a property of the global object. -/
def AssignsGlobalProperty (unit : List Char) (node : Tree) : Prop :=
  node.kind = .assignment ∧ ∃ left object, node.child? .left = some left ∧
    (left.kind = .member ∨ left.kind = .subscript) ∧ left.child? .object = some object ∧
    isGlobalObject unit object = true

theorem assignsGlobalProperty_of_shows {unit : List Char} {visit : Visit} {g : GlobalVariable}
    (h : Shows unit visit (.global g)) : AssignsGlobalProperty unit visit.node ∧
      g.code = visit.node.text unit ∧ g.location = visit.node.location unit := by
  cases h with
  | memberGlobal form hglobal =>
    obtain ⟨left, property, hleft, hkind, hobject, -⟩ := form.target
    exact ⟨⟨form.kind, left, _, hleft, .inl hkind, hobject, hglobal⟩, rfl, rfl⟩
  | indexGlobal form hglobal _ =>
    obtain ⟨left, hleft, hkind, hobject, -⟩ := form.target
    exact ⟨⟨form.kind, left, _, hleft, .inr hkind, hobject, hglobal⟩, rfl, rfl⟩

/-! ## Recorded assignments -/

/-- Whether an assignment makes a global depends on the name only. -/
theorem MakesGlobal.undeclared {unit : List Char} {program node : Tree} {x : String}
    (h : MakesGlobal unit program (globalFact unit x .assignment node)) :
    ∀ statement ∈ program.children, ¬ DeclaresByName unit statement x := by
  generalize hg : globalFact unit x .assignment node = g at h
  cases h with
  | declarator => cases congrArg GlobalVariable.kind hg
  | assignment _ hnew =>
    have hx : x = _ := congrArg GlobalVariable.name hg
    subst hx
    exact hnew

/-- The globals of a classic script are leaks and others. The others are assigned as properties of the global
object. The leaks of kind assignment are bare assignments at the top, and of these all that assign a name
which no declaration at the top has by itself and which no pattern ignores. -/
theorem recorded_assignments {dialect : Dialect} {patterns : List String} {code : String} {facts : Facts}
    (h : extract ⟨dialect, true, patterns⟩ code = .ok facts) :
    ∃ tree, parse dialect code.toList = .ok tree ∧
      ∃ leaks others, facts.globals = leaks ++ others ∧
        (∀ g ∈ others, ∃ visit ∈ tree.visits, AssignsGlobalProperty code.toList visit.node ∧
          g.code = visit.node.text code.toList ∧ g.location = visit.node.location code.toList) ∧
        (∀ g ∈ leaks, g.kind = .assignment → ∃ node left, BareAssignment tree node left ∧
          g = globalFact code.toList (left.text code.toList) .assignment node) ∧
        ∀ node left, BareAssignment tree node left →
          (globalFact code.toList (left.text code.toList) .assignment node ∈ leaks ↔
            (∀ statement ∈ tree.children,
              ¬ DeclaresByName code.toList statement (left.text code.toList)) ∧
            ∀ pattern ∈ patterns, Text.Glob.accepts pattern (left.text code.toList) = false) := by
  unfold extract at h
  simp only at h
  split at h
  · rename_i tree hparse
    cases h
    have hplaced := placed_parse hparse
    have hmade := wellMade_parse hparse
    refine ⟨tree, hparse, (scriptGlobals code.toList tree).filter (GlobalVariable.IsKept patterns),
      (treeFacts ⟨dialect, false, patterns⟩ code.toList tree).globals,
      congrArg Facts.globals (treeFacts_classic dialect patterns code.toList tree), fun g hg => ?_,
      fun g hg hkind => ?_, fun node left hbare => ?_⟩
    · rw [globals_treeFacts] at hg
      obtain ⟨fact, hfact, hglobal⟩ := List.mem_filterMap.1 (List.mem_of_mem_filter hg)
      obtain ⟨visit, hvisit, hat⟩ := List.mem_flatMap.1 hfact
      obtain rfl : fact = .global g := by cases fact <;> simp_all [Fact.global?]
      exact ⟨visit, hvisit, assignsGlobalProperty_of_shows (mem_factsAt.1 hat)⟩
    · have hmakes := (mem_scriptGlobals hplaced hmade).1 (List.mem_of_mem_filter hg)
      cases hmakes with
      | declarator => cases hkind
      | assignment hbare hnew => exact ⟨_, _, hbare, rfl⟩
    · rw [List.mem_filter, mem_scriptGlobals hplaced hmade, decide_eq_true_iff]
      exact and_congr ⟨MakesGlobal.undeclared, .assignment hbare⟩ Iff.rfl
  · cases h

theorem destructured_and_plain_names :
    let code := "let \x7ba: [b]\x7d = o, c;\nfunction d() \x7b\x7d\nb = 1;\nc = 2;\nd = 3;"
    ∃ facts, extract ⟨.javascript, true, []⟩ code = .ok facts ∧ facts.globals.map (·.name) = ["b"] ∧
      ∃ tree, parse .javascript code.toList = .ok tree ∧ ∃ leaks others, facts.globals = leaks ++ others ∧
        ∀ node left, BareAssignment tree node left →
          (globalFact code.toList (left.text code.toList) .assignment node ∈ leaks ↔
            (∀ statement ∈ tree.children,
              ¬ DeclaresByName code.toList statement (left.text code.toList)) ∧
            ∀ pattern ∈ [], Text.Glob.accepts pattern (left.text code.toList) = false) := by
  intro code
  have hfound : (extract ⟨.javascript, true, []⟩ code).toOption.any fun facts =>
      facts.globals.map (·.name) == ["b"] := by
    decide +kernel
  obtain ⟨facts, hfacts, hnames⟩ := exists_ok_of_any hfound
  obtain ⟨tree, htree, leaks, others, hglobals, -, -, hrecorded⟩ := recorded_assignments hfacts
  exact ⟨facts, hfacts, beq_iff_eq.1 hnames, tree, htree, leaks, others, hglobals, hrecorded⟩

/-- A name that a declaration binds inside a pattern is recorded when it is assigned. -/
theorem destructured_name_recorded :
    let code := "let \x7ba\x7d = o;\na = 1;"
    ∃ tree facts, parse .javascript code.toList = .ok tree ∧
      extract ⟨.javascript, true, []⟩ code = .ok facts ∧
      ∃ node left, BareAssignment tree node left ∧
        (∃ statement ∈ tree.children,
          DeclaresInPattern code.toList statement (left.text code.toList)) ∧
        globalFact code.toList (left.text code.toList) .assignment node ∈ facts.globals := by
  intro code
  have hfound : (parse .javascript code.toList).toOption.any fun tree =>
      ∃ statement ∈ tree.children, statement.kind = .expressionStatement ∧
        ∃ node ∈ statement.named.head?, node.kind = .assignment ∧
          ∃ left ∈ node.child? .left, left.kind = .identifier ∧
            (∃ other ∈ tree.children, DeclaresInPattern code.toList other (left.text code.toList)) ∧
            globalFact code.toList (left.text code.toList) .assignment node ∈
              (treeFacts ⟨.javascript, true, []⟩ code.toList tree).globals := by
    decide +kernel
  obtain ⟨tree, hparse, hassigned⟩ := exists_ok_of_any hfound
  obtain ⟨statement, hstatement, hkind, node, hnode, hassignment, left, hleft, hidentifier, hdeclared,
    hrecorded⟩ := of_decide_eq_true hassigned
  refine ⟨tree, treeFacts ⟨.javascript, true, []⟩ code.toList tree, hparse, ?_, node, left,
    ⟨statement, hstatement, hkind, hnode, hassignment, hleft, hidentifier⟩, hdeclared, hrecorded⟩
  unfold extract
  simp only [hparse]

end AssetAudit.Script
