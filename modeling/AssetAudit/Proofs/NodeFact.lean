import AssetAudit.Script.Extract

/-!
# What the nodes of a script show

`Shows` says which facts a node of a tree shows by itself: the assignments to properties of the global
object, the calls that register and remove listeners, the calls and assignments that make, move and
replace elements, the statements and calls that load modules, exports, functions with a name and
variables. The facts found at a node are those it shows (`mem_factsAt`), and apart from globals there is
one at most (`length_filterMap_factsAt_le`).
-/
namespace AssetAudit.Script

variable {unit : List Char}

/-! ## Forms of nodes -/

/-- A call of a method of an object, with the name of the method as it is written. -/
structure MethodCall (unit : List Char) (node object : Tree) (name : String) : Prop where
  kind : node.kind = .call
  callee : ∃ callee property, node.child? .callee = some callee ∧ callee.kind = .member ∧
    callee.child? .object = some object ∧ callee.child? .property = some property ∧
    property.text unit = name

/-- An assignment to a property of an object. -/
structure MemberAssignment (unit : List Char) (node object : Tree) (name : String) : Prop where
  kind : node.kind = .assignment
  target : ∃ left property, node.child? .left = some left ∧ left.kind = .member ∧
    left.child? .object = some object ∧ left.child? .property = some property ∧
    property.text unit = name

/-- An assignment to what an object holds under an index. -/
structure IndexAssignment (node object index : Tree) : Prop where
  kind : node.kind = .assignment
  target : ∃ left, node.child? .left = some left ∧ left.kind = .subscript ∧
    left.child? .object = some object ∧ left.child? .index = some index

/-- A call that loads the module its first argument names: of the word `import`, or of `require`. -/
structure LoadCall (unit : List Char) (node : Tree) (load : ImportKind) (source : String) : Prop where
  kind : node.kind = .call
  callee : ∃ callee, node.child? .callee = some callee ∧
    (load = .dynamic ∧ callee.kind = .importWord ∨
      load = .require ∧ callee.kind = .identifier ∧ callee.text unit = "require")
  argument : ∃ first more, callArguments node = first :: more ∧ stringValue? unit first = some source

/-- A function or a method with a name. -/
structure NamedFunction (node name : Tree) (method : Bool) : Prop where
  kind : method = false ∧ (node.kind = .functionDeclaration ∨ node.kind = .generatorDeclaration) ∨
    method = true ∧ node.kind = .method
  name : node.child? .name = some name

/-! ## Facts -/

/-- The second argument, unless it is the word `null`. -/
def referenceOf (unit : List Char) (arguments : List Tree) : Option String :=
  (arguments[1]?.filter (·.kind != .nullLiteral)).map (·.compact unit)

/-- The word that declares a variable, told by the node around its declarator. -/
def declaringWord (unit : List Char) (around : List Tree) : String :=
  match around.head? with
  | none => "var"
  | some parent =>
    if parent.kind = .varDeclaration then "var" else (parent.children.head?.map (·.text unit)).getD "let"

/-- The facts that a node shows by itself. -/
inductive Shows (unit : List Char) (visit : Visit) : Fact → Prop where
  | memberGlobal {object : Tree} {name : String} (form : MemberAssignment unit visit.node object name)
    (hglobal : isGlobalObject unit object = true) :
    Shows unit visit (.global (globalFact unit name .assignment visit.node))
  | indexGlobal {object index : Tree} {name : String} (form : IndexAssignment visit.node object index)
    (hglobal : isGlobalObject unit object = true) (hname : stringValue? unit index = some name) :
    Shows unit visit (.global (globalFact unit name .assignment visit.node))
  | markupWrite {object : Tree} {name : String} {method : ElementMethod}
    (form : MemberAssignment unit visit.node object name) (hmethod : markupMethod? name = some method) :
    Shows unit visit (operationFact unit visit.node method (elementName unit object) none none)
  | createElement {object : Tree} (form : MethodCall unit visit.node object "createElement")
    (hmakes : isViewFactory unit object (callArguments visit.node) = false) :
    Shows unit visit (operationFact unit visit.node .createElement
      (boundName unit visit.node visit.around) none none)
  | createTextNode {object : Tree} (form : MethodCall unit visit.node object "createTextNode") :
    Shows unit visit (operationFact unit visit.node .createTextNode
      (boundName unit visit.node visit.around) none none)
  | appendChild {object : Tree} (form : MethodCall unit visit.node object "appendChild") :
    Shows unit visit (operationFact unit visit.node .appendChild
      (memberCallFacts.firstName unit (callArguments visit.node)) (some (elementName unit object)) none)
  | removeChild {object : Tree} (form : MethodCall unit visit.node object "removeChild") :
    Shows unit visit (operationFact unit visit.node .removeChild
      (memberCallFacts.firstName unit (callArguments visit.node)) (some (elementName unit object)) none)
  | insertBefore {object : Tree} (form : MethodCall unit visit.node object "insertBefore") :
    Shows unit visit (operationFact unit visit.node .insertBefore
      (memberCallFacts.firstName unit (callArguments visit.node)) (some (elementName unit object))
      (referenceOf unit (callArguments visit.node)))
  | insertAdjacentHtml {object : Tree} (form : MethodCall unit visit.node object "insertAdjacentHTML") :
    Shows unit visit (operationFact unit visit.node .insertAdjacentHtml (elementName unit object)
      none none)
  | listener {object event handler : Tree} {more : List Tree} {name : String} {method : ListenerMethod}
    (form : MethodCall unit visit.node object name)
    (harguments : callArguments visit.node = event :: handler :: more)
    (hmethod : listenerMethod? name (jqueryElement? unit object).isSome = some method) :
    Shows unit visit (.listener ⟨method, eventName unit event,
      (jqueryElement? unit object).getD (elementName unit object), visit.node.text unit,
      visit.node.location unit, definitionName unit handler, isAnonymous unit handler⟩)
  | loaded {load : ImportKind} {source : String} (form : LoadCall unit visit.node load source) :
    Shows unit visit (importFact unit source load [] visit.node)
  | imported {source : String} (hkind : visit.node.kind = .importStatement)
    (hsource : (visit.node.child? .source).bind (stringValue? unit) = some source) :
    Shows unit visit (importFact unit source .static
      ((visit.node.named.filter (·.kind == .importClause)).flatMap fun clause =>
        clause.named.flatMap (importSpecifiers unit)) visit.node)
  | exported (hkind : visit.node.kind = .exportStatement) :
    Shows unit visit (exportFact unit visit.node)
  | function {name : Tree} {method : Bool} (form : NamedFunction visit.node name method) :
    Shows unit visit (.function ⟨name.text unit, ((visit.node.child? .parameters).elim [] fun list =>
      (list.named.filter (·.kind != .comment)).map (parameterText unit)), method,
      visit.node.location unit⟩)
  | declared {name : Tree} (hkind : visit.node.kind = .declarator)
    (hname : visit.node.child? .name = some name) (hplain : name.kind = .identifier) :
    Shows unit visit (.declared ⟨name.text unit, declaringWord unit visit.around,
      visit.node.location unit⟩)

/-! ## The facts found at a node are those it shows -/

theorem shows_of_mem_assignmentFacts {visit : Visit} (hkind : visit.node.kind = .assignment) {fact : Fact}
    (h : fact ∈ assignmentFacts unit visit.node) : Shows unit visit fact := by
  unfold assignmentFacts at h
  split at h
  · cases h
  · rename_i left hleft
    split at h
    · rename_i object property hmember hobject hproperty
      have hform : MemberAssignment unit visit.node object (property.text unit) :=
        ⟨hkind, left, property, hleft, hmember, hobject, hproperty, rfl⟩
      simp only at h
      rcases List.mem_append.1 h with h | h
      · split at h
        · rename_i hglobal
          rw [List.mem_singleton.1 h]
          exact .memberGlobal hform hglobal
        · cases h
      · split at h
        · rename_i method hmethod
          rw [List.mem_singleton.1 h]
          exact .markupWrite hform hmethod
        · cases h
    · rename_i object index hsubscript hobject hindex
      split at h
      · rename_i name hglobal hname
        rw [List.mem_singleton.1 h]
        exact .indexGlobal ⟨hkind, left, hleft, hsubscript, hobject, hindex⟩ hglobal hname
      · cases h
    · cases h

theorem memberCallFacts_insertBefore (visit : Visit) (object : Tree) (arguments : List Tree) :
    memberCallFacts unit visit object "insertBefore" arguments =
      [operationFact unit visit.node .insertBefore (memberCallFacts.firstName unit arguments)
        (some (elementName unit object)) (referenceOf unit arguments)] := by
  rcases arguments with _ | ⟨first, _ | ⟨second, more⟩⟩
  · rfl
  · rfl
  · by_cases hnull : second.kind = .nullLiteral <;>
      simp [memberCallFacts, referenceOf, Option.filter, hnull]

theorem shows_of_mem_memberCallFacts {visit : Visit} {object : Tree} {name : String}
    (hform : MethodCall unit visit.node object name) {fact : Fact}
    (h : fact ∈ memberCallFacts unit visit object name (callArguments visit.node)) :
    Shows unit visit fact := by
  by_cases hinsert : name = "insertBefore"
  · subst hinsert
    rw [memberCallFacts_insertBefore] at h
    rw [List.mem_singleton.1 h]
    exact .insertBefore hform
  unfold memberCallFacts at h
  simp only at h
  split at h
  · split at h
    · cases h
    · rename_i hmakes
      rw [List.mem_singleton.1 h]
      exact .createElement hform (Bool.eq_false_iff.2 hmakes)
  · rw [List.mem_singleton.1 h]
    exact .createTextNode hform
  · rw [List.mem_singleton.1 h]
    exact .appendChild hform
  · rw [List.mem_singleton.1 h]
    exact .removeChild hform
  · exact absurd rfl hinsert
  · rw [List.mem_singleton.1 h]
    exact .insertAdjacentHtml hform
  · rename_i harguments
    split at h
    · rename_i method hmethod
      rw [List.mem_singleton.1 h]
      exact .listener hform harguments hmethod
    · cases h
  · cases h

theorem shows_of_mem_loadedModule {visit : Visit} {load : ImportKind} {callee : Tree}
    (hkind : visit.node.kind = .call) (hcallee : visit.node.child? .callee = some callee)
    (hload : load = .dynamic ∧ callee.kind = .importWord ∨
      load = .require ∧ callee.kind = .identifier ∧ callee.text unit = "require") {fact : Fact}
    (h : fact ∈ loadedModule unit load (callArguments visit.node) visit.node) :
    Shows unit visit fact := by
  unfold loadedModule at h
  split at h
  · rename_i first more harguments
    split at h
    · rename_i source hsource
      rw [List.mem_singleton.1 h]
      exact .loaded ⟨hkind, ⟨callee, hcallee, hload⟩, first, more, harguments, hsource⟩
    · cases h
  · cases h

theorem shows_of_mem_callFacts {visit : Visit} (hkind : visit.node.kind = .call) {fact : Fact}
    (h : fact ∈ callFacts unit visit) : Shows unit visit fact := by
  unfold callFacts at h
  simp only at h
  split at h
  · cases h
  · rename_i callee hcallee
    split at h
    · rename_i hword
      exact shows_of_mem_loadedModule hkind hcallee (.inl ⟨rfl, hword⟩) h
    · rename_i hname
      split at h
      · rename_i hrequire
        exact shows_of_mem_loadedModule hkind hcallee (.inr ⟨rfl, hname, beq_iff_eq.1 hrequire⟩) h
      · cases h
    · rename_i hmember
      split at h
      · rename_i object property hobject hproperty
        exact shows_of_mem_memberCallFacts
          ⟨hkind, callee, property, hcallee, hmember, hobject, hproperty, rfl⟩ h
      · cases h
    · cases h

theorem functionFacts_eq {node name : Tree} (hname : node.child? .name = some name) (method : Bool) :
    functionFacts unit node method =
      [.function ⟨name.text unit, ((node.child? .parameters).elim [] fun list =>
        (list.named.filter (·.kind != .comment)).map (parameterText unit)), method,
        node.location unit⟩] := by
  cases hparams : node.child? .parameters <;> simp [functionFacts, hname, hparams]

theorem shows_of_mem_functionFacts {visit : Visit} {method : Bool}
    (hkind : method = false ∧
        (visit.node.kind = .functionDeclaration ∨ visit.node.kind = .generatorDeclaration) ∨
      method = true ∧ visit.node.kind = .method) {fact : Fact}
    (h : fact ∈ functionFacts unit visit.node method) : Shows unit visit fact := by
  cases hname : visit.node.child? .name with
  | none => simp [functionFacts, hname] at h
  | some name =>
    rw [functionFacts_eq hname] at h
    rw [List.mem_singleton.1 h]
    exact .function ⟨hkind, hname⟩

theorem variableFacts_eq {visit : Visit} {name : Tree} (hname : visit.node.child? .name = some name)
    (hplain : name.kind = .identifier) :
    variableFacts unit visit =
      [.declared ⟨name.text unit, declaringWord unit visit.around, visit.node.location unit⟩] := by
  unfold variableFacts declaringWord
  rw [hname]
  rcases visit.around with _ | ⟨parent, around⟩
  · simp [hplain]
  · by_cases hvar : parent.kind = .varDeclaration
    · simp [hplain, hvar]
    · rcases hchildren : parent.children with _ | ⟨first, more⟩ <;> simp [hplain, hvar, hchildren]

theorem shows_of_mem_variableFacts {visit : Visit} (hkind : visit.node.kind = .declarator) {fact : Fact}
    (h : fact ∈ variableFacts unit visit) : Shows unit visit fact := by
  cases hname : visit.node.child? .name with
  | none => simp [variableFacts, hname] at h
  | some name =>
    by_cases hplain : name.kind = .identifier
    · rw [variableFacts_eq hname hplain] at h
      rw [List.mem_singleton.1 h]
      exact .declared hkind hname hplain
    · simp [variableFacts, hname, hplain] at h

theorem shows_of_mem_importStatementFacts {visit : Visit} (hkind : visit.node.kind = .importStatement)
    {fact : Fact} (h : fact ∈ importStatementFacts unit visit.node) : Shows unit visit fact := by
  unfold importStatementFacts at h
  split at h
  · cases h
  · rename_i source hsource
    rw [List.mem_singleton.1 h]
    exact .imported hkind hsource

theorem shows_of_mem_factsAt {visit : Visit} {fact : Fact} (h : fact ∈ factsAt unit visit) :
    Shows unit visit fact := by
  unfold factsAt at h
  split at h
  · rename_i hkind
    exact shows_of_mem_assignmentFacts hkind h
  · rename_i hkind
    exact shows_of_mem_callFacts hkind h
  · rename_i hkind
    exact shows_of_mem_importStatementFacts hkind h
  · rename_i hkind
    rw [List.mem_singleton.1 h]
    exact .exported hkind
  · rename_i hkind
    exact shows_of_mem_functionFacts (.inl ⟨rfl, .inl hkind⟩) h
  · rename_i hkind
    exact shows_of_mem_functionFacts (.inl ⟨rfl, .inr hkind⟩) h
  · rename_i hkind
    exact shows_of_mem_functionFacts (.inr ⟨rfl, hkind⟩) h
  · rename_i hkind
    exact shows_of_mem_variableFacts hkind h
  · cases h

/-! ## What a node shows is found -/

theorem MethodCall.factsAt_eq {visit : Visit} {object : Tree} {name : String}
    (h : MethodCall unit visit.node object name) :
    factsAt unit visit = memberCallFacts unit visit object name (callArguments visit.node) := by
  obtain ⟨hkind, callee, property, hcallee, hmember, hobject, hproperty, rfl⟩ := h
  simp [factsAt, hkind, callFacts, hcallee, hmember, hobject, hproperty]

theorem MemberAssignment.factsAt_eq {visit : Visit} {object : Tree} {name : String}
    (h : MemberAssignment unit visit.node object name) :
    factsAt unit visit =
      (if isGlobalObject unit object then [.global (globalFact unit name .assignment visit.node)]
        else []) ++
      ((markupMethod? name).map fun method =>
        operationFact unit visit.node method (elementName unit object) none none).toList := by
  obtain ⟨hkind, left, property, hleft, hmember, hobject, hproperty, rfl⟩ := h
  cases hmethod : markupMethod? (property.text unit) <;>
    simp [factsAt, hkind, assignmentFacts, hleft, hmember, hobject, hproperty, hmethod]

theorem LoadCall.factsAt_eq {visit : Visit} {load : ImportKind} {source : String}
    (h : LoadCall unit visit.node load source) :
    factsAt unit visit = [importFact unit source load [] visit.node] := by
  obtain ⟨hkind, ⟨callee, hcallee, ⟨rfl, hword⟩ | ⟨rfl, hname, hrequire⟩⟩, first, more, harguments,
    hsource⟩ := h
  · simp [factsAt, hkind, callFacts, hcallee, hword, loadedModule, harguments, hsource]
  · simp [factsAt, hkind, callFacts, hcallee, hname, hrequire, loadedModule, harguments, hsource]

theorem NamedFunction.factsAt_eq {visit : Visit} {name : Tree} {method : Bool}
    (h : NamedFunction visit.node name method) :
    factsAt unit visit = functionFacts unit visit.node method := by
  obtain ⟨⟨rfl, hkind | hkind⟩ | ⟨rfl, hkind⟩, -⟩ := h <;> simp [factsAt, hkind]

/-- The name of a method that registers or removes listeners. -/
theorem mem_of_listenerMethod? {name : String} {jquery : Bool} {method : ListenerMethod}
    (h : listenerMethod? name jquery = some method) :
    name ∈ ["addEventListener", "removeEventListener", "on", "off"] := by
  unfold listenerMethod? at h
  split at h <;> simp_all

theorem mem_factsAt_of_shows {visit : Visit} {fact : Fact} (h : Shows unit visit fact) :
    fact ∈ factsAt unit visit := by
  cases h with
  | memberGlobal form hglobal => simp [form.factsAt_eq, hglobal]
  | indexGlobal form hglobal hname =>
    obtain ⟨hkind, left, hleft, hsubscript, hobject, hindex⟩ := form
    simp [factsAt, hkind, assignmentFacts, hleft, hsubscript, hobject, hindex, hglobal, hname]
  | markupWrite form hmethod => simp [form.factsAt_eq, hmethod]
  | createElement form hmakes => simp [form.factsAt_eq, memberCallFacts, hmakes]
  | createTextNode form => simp [form.factsAt_eq, memberCallFacts]
  | appendChild form => simp [form.factsAt_eq, memberCallFacts]
  | removeChild form => simp [form.factsAt_eq, memberCallFacts]
  | insertBefore form => simp [form.factsAt_eq, memberCallFacts_insertBefore]
  | insertAdjacentHtml form => simp [form.factsAt_eq, memberCallFacts]
  | listener form harguments hmethod =>
    rw [form.factsAt_eq, harguments]
    have hnames := mem_of_listenerMethod? hmethod
    simp only [List.mem_cons, List.not_mem_nil, or_false] at hnames
    rcases hnames with rfl | rfl | rfl | rfl <;> simp [memberCallFacts, hmethod]
  | loaded form => simp [form.factsAt_eq]
  | imported hkind hsource => simp [factsAt, hkind, importStatementFacts, hsource]
  | exported hkind => simp [factsAt, hkind]
  | function form => simp [form.factsAt_eq, functionFacts_eq form.name]
  | declared hkind hname hplain => simp [factsAt, hkind, variableFacts_eq hname hplain]

/-- The facts found at a node are those it shows. -/
theorem mem_factsAt {visit : Visit} {fact : Fact} : fact ∈ factsAt unit visit ↔ Shows unit visit fact :=
  ⟨shows_of_mem_factsAt, mem_factsAt_of_shows⟩

/-! ## No node shows two things of one kind -/

theorem length_memberCallFacts_le (visit : Visit) (object : Tree) (name : String)
    (arguments : List Tree) : (memberCallFacts unit visit object name arguments).length ≤ 1 := by
  by_cases hinsert : name = "insertBefore"
  · subst hinsert
    rw [memberCallFacts_insertBefore]
    exact Nat.le_refl 1
  unfold memberCallFacts
  simp only
  split
  · split <;> simp
  · exact Nat.le_refl 1
  · exact Nat.le_refl 1
  · exact Nat.le_refl 1
  · exact absurd rfl hinsert
  · exact Nat.le_refl 1
  · split <;> simp
  · exact Nat.zero_le 1

theorem length_loadedModule_le (load : ImportKind) (arguments : List Tree) (node : Tree) :
    (loadedModule unit load arguments node).length ≤ 1 := by
  unfold loadedModule
  split
  · split <;> simp
  · exact Nat.zero_le 1

theorem length_callFacts_le (visit : Visit) : (callFacts unit visit).length ≤ 1 := by
  unfold callFacts
  simp only
  split
  · exact Nat.zero_le 1
  · split
    · exact length_loadedModule_le _ _ _
    · split
      · exact length_loadedModule_le _ _ _
      · exact Nat.zero_le 1
    · split
      · exact length_memberCallFacts_le _ _ _ _
      · exact Nat.zero_le 1
    · exact Nat.zero_le 1

theorem length_importStatementFacts_le (node : Tree) : (importStatementFacts unit node).length ≤ 1 := by
  unfold importStatementFacts
  split <;> simp

theorem length_functionFacts_le (node : Tree) (method : Bool) :
    (functionFacts unit node method).length ≤ 1 := by
  unfold functionFacts
  split <;> simp

theorem length_variableFacts_le (visit : Visit) : (variableFacts unit visit).length ≤ 1 := by
  unfold variableFacts
  split
  · exact Nat.zero_le 1
  · split <;> simp

section Select

variable {α : Type} {select : Fact → Option α}

/-- An assignment can show a global and an operation, but no two of either. -/
theorem length_filterMap_assignmentFacts_le (hglobal : ∀ g, select (.global g) = none) (node : Tree) :
    ((assignmentFacts unit node).filterMap select).length ≤ 1 := by
  unfold assignmentFacts
  split
  · exact Nat.zero_le 1
  · split
    · have hglobals : ∀ {p : Prop} [Decidable p] {g : GlobalVariable},
          (if p then [Fact.global g] else []).filterMap select = [] := by
        intro p _ g
        split <;> simp [hglobal]
      simp only
      rw [List.filterMap_append, hglobals, List.nil_append]
      refine Nat.le_trans (List.length_filterMap_le _ _) ?_
      split <;> simp
    · split <;> simp [hglobal]
    · exact Nat.zero_le 1

/-- A node shows one fact at most, if globals are not counted. -/
theorem length_filterMap_factsAt_le (hglobal : ∀ g, select (.global g) = none) (visit : Visit) :
    ((factsAt unit visit).filterMap select).length ≤ 1 := by
  have hshort : ∀ {facts : List Fact}, facts.length ≤ 1 → (facts.filterMap select).length ≤ 1 :=
    fun h => Nat.le_trans (List.length_filterMap_le _ _) h
  unfold factsAt
  split
  · exact length_filterMap_assignmentFacts_le hglobal _
  · exact hshort (length_callFacts_le visit)
  · exact hshort (length_importStatementFacts_le _)
  · exact hshort (Nat.le_refl 1)
  · exact hshort (length_functionFacts_le _ _)
  · exact hshort (length_functionFacts_le _ _)
  · exact hshort (length_functionFacts_le _ _)
  · exact hshort (length_variableFacts_le visit)
  · exact Nat.zero_le 1

end Select

end AssetAudit.Script
