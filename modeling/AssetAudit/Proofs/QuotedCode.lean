import AssetAudit.Error
import AssetAudit.Proofs.TreePlace
import AssetAudit.Script.Extract

/-!
# The code of facts

The globals, listeners and operations on elements that are found in a unit keep the code they were found
in and its location. Both are those of one node of the tree (`quotes_factsAt`, `exists_of_mem_scriptGlobals`),
and the nodes of a tree are placed in the unit. So a reader who goes to the location finds the code
there, character by character (`code_stands_at_location`).
-/
namespace AssetAudit.Script

variable {unit : List Char}

/-- The code that a fact keeps, and its location. -/
def Fact.quote? : Fact → Option (String × Location)
  | .global g => some (g.code, g.location)
  | .listener l => some (l.code, l.location)
  | .operation o => some (o.code, o.location)
  | .imported _ | .exported _ | .function _ | .declared _ => none

/-- Whether the code that a fact keeps, if any, is that of a node. -/
def Fact.Quotes (unit : List Char) (node : Tree) (fact : Fact) : Prop :=
  ∀ quote, fact.quote? = some quote → quote = (node.text unit, node.location unit)

theorem Fact.Quotes.of_mem_singleton {node : Tree} {fact other : Fact} (hother : other.Quotes unit node)
    (h : fact ∈ [other]) : fact.Quotes unit node := by
  rwa [List.mem_singleton.1 h]

/-! ## What nodes contribute -/

theorem quotes_operationFact (node : Tree) (method : ElementMethod) (element : String)
    (parent reference : Option String) :
    (operationFact unit node method element parent reference).Quotes unit node := by
  rintro _ ⟨⟩
  rfl

theorem quotes_globalFact (name : String) (kind : GlobalKind) (node : Tree) :
    (Fact.global (globalFact unit name kind node)).Quotes unit node := by
  rintro _ ⟨⟩
  rfl

theorem quotes_assignmentFacts (node : Tree) :
    ∀ fact ∈ assignmentFacts unit node, fact.Quotes unit node := by
  intro fact h
  unfold assignmentFacts at h
  split at h
  · cases h
  · split at h
    · simp only at h
      rcases List.mem_append.1 h with h | h
      · split at h
        · exact (quotes_globalFact _ _ node).of_mem_singleton h
        · cases h
      · split at h
        · exact (quotes_operationFact node _ _ _ _).of_mem_singleton h
        · cases h
    · split at h
      · exact (quotes_globalFact _ _ node).of_mem_singleton h
      · cases h
    · cases h

theorem quotes_memberCallFacts (visit : Visit) (object : Tree) (property : String)
    (arguments : List Tree) :
    ∀ fact ∈ memberCallFacts unit visit object property arguments, fact.Quotes unit visit.node := by
  intro fact h
  have hoperation : ∀ {method element parent reference},
      fact ∈ [operationFact unit visit.node method element parent reference] →
      fact.Quotes unit visit.node :=
    fun h => (quotes_operationFact visit.node _ _ _ _).of_mem_singleton h
  unfold memberCallFacts at h
  simp only at h
  split at h
  · split at h
    · cases h
    · exact hoperation h
  · exact hoperation h
  · exact hoperation h
  · exact hoperation h
  · exact hoperation h
  · exact hoperation h
  · split at h
    · rw [List.mem_singleton.1 h]
      rintro _ ⟨⟩
      rfl
    · cases h
  · cases h

theorem quote?_loadedModule (kind : ImportKind) (arguments : List Tree) (node : Tree) :
    ∀ fact ∈ loadedModule unit kind arguments node, fact.quote? = none := by
  intro fact h
  unfold loadedModule at h
  split at h
  · split at h
    · rw [List.mem_singleton.1 h]
      rfl
    · cases h
  · cases h

theorem Fact.quotes_of_none {fact : Fact} (h : fact.quote? = none) (node : Tree) :
    fact.Quotes unit node := by
  intro quote hquote
  rw [h] at hquote
  cases hquote

theorem quotes_callFacts (visit : Visit) : ∀ fact ∈ callFacts unit visit, fact.Quotes unit visit.node := by
  intro fact h
  unfold callFacts at h
  simp only at h
  split at h
  · cases h
  · split at h
    · exact Fact.quotes_of_none (quote?_loadedModule _ _ _ fact h) _
    · split at h
      · exact Fact.quotes_of_none (quote?_loadedModule _ _ _ fact h) _
      · cases h
    · split at h
      · exact quotes_memberCallFacts visit _ _ _ fact h
      · cases h
    · cases h

theorem quote?_importStatementFacts (node : Tree) :
    ∀ fact ∈ importStatementFacts unit node, fact.quote? = none := by
  intro fact h
  unfold importStatementFacts at h
  split at h
  · cases h
  · rw [List.mem_singleton.1 h]
    rfl

theorem quote?_functionFacts (node : Tree) (method : Bool) :
    ∀ fact ∈ functionFacts unit node method, fact.quote? = none := by
  intro fact h
  unfold functionFacts at h
  split at h
  · cases h
  · rw [List.mem_singleton.1 h]
    rfl

theorem quote?_variableFacts (visit : Visit) : ∀ fact ∈ variableFacts unit visit, fact.quote? = none := by
  intro fact h
  unfold variableFacts at h
  split at h
  · cases h
  · split at h
    · cases h
    · rw [List.mem_singleton.1 h]
      rfl

/-- The code that a fact of a node keeps is that of the node. -/
theorem quotes_factsAt (visit : Visit) : ∀ fact ∈ factsAt unit visit, fact.Quotes unit visit.node := by
  intro fact h
  unfold factsAt at h
  split at h
  · exact quotes_assignmentFacts _ fact h
  · exact quotes_callFacts visit fact h
  · exact Fact.quotes_of_none (quote?_importStatementFacts _ fact h) _
  · rw [List.mem_singleton.1 h]
    exact Fact.quotes_of_none rfl _
  · exact Fact.quotes_of_none (quote?_functionFacts _ _ fact h) _
  · exact Fact.quotes_of_none (quote?_functionFacts _ _ fact h) _
  · exact Fact.quotes_of_none (quote?_functionFacts _ _ fact h) _
  · exact Fact.quotes_of_none (quote?_variableFacts visit fact h) _
  · cases h

/-- A global at the top of a classic script keeps the code of a declarator or an assignment there. -/
theorem exists_of_mem_scriptGlobals {program : Tree} {g : GlobalVariable}
    (h : g ∈ scriptGlobals unit program) :
    ∃ statement ∈ program.named, ∃ node ∈ statement.named,
      (g.code, g.location) = (node.text unit, node.location unit) := by
  obtain ⟨statement, hstatement, h⟩ := List.mem_flatMap.1 h
  refine ⟨statement, hstatement, ?_⟩
  unfold scriptGlobalsAt at h
  split at h
  · obtain ⟨declarator, hdeclarator, h⟩ := List.mem_filterMap.1 h
    split at h
    · rw [Option.ite_none_right_eq_some, Option.some.injEq] at h
      rw [← h.2]
      exact ⟨declarator, hdeclarator, rfl⟩
    · cases h
  · split at h
    · rename_i node rest hnamed
      split at h
      · cases h
      · split at h
        · split at h
          · rw [List.mem_singleton.1 h]
            exact ⟨node, by rw [hnamed]; exact List.mem_cons_self, rfl⟩
          · cases h
        · cases h
    · cases h
  · cases h

/-! ## The facts of a unit -/

theorem Tree.Placed.between_location {node : Tree} (h : node.Placed unit) :
    Text.between unit (node.location unit) = (node.text unit).toList := by
  rw [Tree.location, h.fits.between_locate, Tree.text, String.toList_ofList, Tree.chars]

section Trees

variable {tree : Tree} (h : tree.Placed unit)
include h

/-- Code that a fact of a tree keeps stands in the unit at its location. -/
theorem between_of_mem_visits {fact : Fact} {code : String} {location : Location}
    (hfact : fact ∈ tree.visits.flatMap (factsAt unit)) (hquote : fact.quote? = some (code, location)) :
    Text.between unit location = code.toList := by
  obtain ⟨visit, hvisit, hfact⟩ := List.mem_flatMap.1 hfact
  obtain ⟨rfl, rfl⟩ := Prod.mk.inj (quotes_factsAt visit fact hfact _ hquote)
  exact (h.of_mem_visitsFrom hvisit).between_location

theorem between_of_mem_scriptGlobals {g : GlobalVariable} (hg : g ∈ scriptGlobals unit tree) :
    Text.between unit g.location = g.code.toList := by
  obtain ⟨statement, hstatement, node, hnode, hquote⟩ := exists_of_mem_scriptGlobals hg
  rw [(Prod.mk.inj hquote).1, (Prod.mk.inj hquote).2]
  exact ((h.of_mem_named hstatement).of_mem_named hnode).between_location

theorem between_of_mem_globals {reading : Reading} {g : GlobalVariable}
    (hg : g ∈ (treeFacts reading unit tree).globals) :
    Text.between unit g.location = g.code.toList := by
  rcases List.mem_append.1 (List.mem_filter.1 hg).1 with hg | hg
  · split at hg
    · exact between_of_mem_scriptGlobals h hg
    · cases hg
  · obtain ⟨fact, hfact, hsome⟩ := List.mem_filterMap.1 hg
    refine between_of_mem_visits h hfact ?_
    cases fact with
    | global other =>
      cases hsome
      rfl
    | _ => cases hsome

theorem between_of_mem_listeners {adds : Bool} {l : Listener}
    (hl : l ∈ (tree.visits.flatMap (factsAt unit)).filterMap (Fact.listener? adds)) :
    Text.between unit l.location = l.code.toList := by
  obtain ⟨fact, hfact, hsome⟩ := List.mem_filterMap.1 hl
  refine between_of_mem_visits h hfact ?_
  cases fact with
  | listener other =>
    rw [Fact.listener?, Option.ite_none_right_eq_some, Option.some.injEq] at hsome
    rw [hsome.2]
    rfl
  | _ => cases hsome

theorem between_of_mem_operations {methods : List ElementMethod} {o : ElementOperation}
    (ho : o ∈ (tree.visits.flatMap (factsAt unit)).filterMap (Fact.operation? methods)) :
    Text.between unit o.location = o.code.toList := by
  obtain ⟨fact, hfact, hsome⟩ := List.mem_filterMap.1 ho
  refine between_of_mem_visits h hfact ?_
  cases fact with
  | operation other =>
    rw [Fact.operation?, Option.ite_none_right_eq_some, Option.some.injEq] at hsome
    rw [hsome.2]
    rfl
  | _ => cases hsome

end Trees

/-- The code of every global, listener and operation on elements of a unit stands in the unit at its
location: it is the characters from the start of the location, line and column counted from one, up to
its end. -/
theorem code_stands_at_location {reading : Reading} {code : String} {facts : Facts}
    (h : extract reading code = .ok facts) :
    (∀ g ∈ facts.globals, Text.between code.toList g.location = g.code.toList) ∧
      (∀ l ∈ facts.added ++ facts.removed, Text.between code.toList l.location = l.code.toList) ∧
      ∀ o ∈ facts.created ++ facts.appended ++ facts.inserted ++ facts.detached ++ facts.markupWrites,
        Text.between code.toList o.location = o.code.toList := by
  unfold extract at h
  simp only at h
  split at h
  · rename_i tree htree
    cases h
    have hplaced := placed_parse htree
    refine ⟨fun g => between_of_mem_globals hplaced, fun l hl => ?_, fun o ho => ?_⟩
    · rcases List.mem_append.1 hl with hl | hl
      · exact between_of_mem_listeners hplaced hl
      · exact between_of_mem_listeners hplaced hl
    · simp only [List.mem_append] at ho
      rcases ho with (((ho | ho) | ho) | ho) | ho
      · exact between_of_mem_operations hplaced ho
      · exact between_of_mem_operations hplaced ho
      · exact between_of_mem_operations hplaced ho
      · exact between_of_mem_operations hplaced ho
      · exact between_of_mem_operations hplaced ho
  · cases h

theorem assignment_over_lines_quoted :
    let code := "let é = '€';\r\nwindow.ü = [\n'𝒳', é];"
    ∃ facts, extract ⟨.javascript, true, []⟩ code = .ok facts ∧
      facts.globals.map (fun g => (g.code, g.location)) =
        [("window.ü = [\n'𝒳', é]", ⟨⟨2, 1⟩, ⟨3, 8⟩⟩)] ∧
      ∀ g ∈ facts.globals, Text.between code.toList g.location = g.code.toList := by
  intro code
  have hfound : (extract ⟨.javascript, true, []⟩ code).toOption.any fun facts =>
      facts.globals.map (fun g => (g.code, g.location)) ==
        [("window.ü = [\n'𝒳', é]", ⟨⟨2, 1⟩, ⟨3, 8⟩⟩)] := by decide +kernel
  obtain ⟨facts, hfacts, hquoted⟩ := exists_ok_of_any hfound
  exact ⟨facts, hfacts, beq_iff_eq.1 hquoted, (code_stands_at_location hfacts).1⟩

end AssetAudit.Script
