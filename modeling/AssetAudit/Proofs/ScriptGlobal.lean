import AssetAudit.Proofs.NodeForm
import AssetAudit.Proofs.TreePlace
import AssetAudit.Script.Extract

/-!
# Globals of classic scripts

At the top of a classic script, variables are globals, and so are names that are assigned without being
declared (`MakesGlobal`). What counts as declared is what a declaration names by itself
(`DeclaresByName`): a declarator whose name is a pattern is kept as the text of the pattern, and no
identifier is written like that, since patterns start with a bracket and identifiers do not
(`mem_scriptNames`). The globals are listed in the order of the text, every one of them once
(`mem_scriptGlobals`, `pairwise_scriptGlobals`).
-/
namespace AssetAudit.Script

variable {unit : List Char}

/-- Whether a node is an assignment to a name that stands as a statement at the top of a script. -/
def BareAssignment (program node left : Tree) : Prop :=
  ∃ statement ∈ program.children, statement.kind = .expressionStatement ∧
    statement.named.head? = some node ∧ node.kind = .assignment ∧ node.child? .left = some left ∧
    left.kind = .identifier

/-- Whether a statement declares variables. -/
def Tree.DeclaresVariables (statement : Tree) : Prop :=
  statement.kind = .varDeclaration ∨ statement.kind = .lexicalDeclaration

/-- Whether a statement is a declaration of a function or a class. -/
def Tree.DeclaresNamed (statement : Tree) : Prop :=
  statement.kind = .functionDeclaration ∨ statement.kind = .generatorDeclaration ∨
    statement.kind = .classDeclaration

/-- Whether a declaration has a name by itself, which no pattern is around. -/
def DeclaresByName (unit : List Char) (statement : Tree) (x : String) : Prop :=
  (statement.DeclaresVariables ∧ ∃ declarator ∈ statement.children, declarator.kind = .declarator ∧
    ∃ name ∈ declarator.child? .name, name.kind = .identifier ∧ name.text unit = x) ∨
  (statement.DeclaresNamed ∧ ∃ name ∈ statement.child? .name, name.text unit = x)

/-- A global that a classic script makes at its top. -/
inductive MakesGlobal (unit : List Char) (program : Tree) : GlobalVariable → Prop where
  | declarator {statement declarator name : Tree} (hstatement : statement ∈ program.children)
    (hvar : statement.kind = .varDeclaration) (hdeclarator : declarator ∈ statement.children)
    (hkind : declarator.kind = .declarator) (hname : declarator.child? .name = some name)
    (hidentifier : name.kind = .identifier) :
    MakesGlobal unit program (globalFact unit (name.text unit) .var declarator)
  | assignment {node left : Tree} (hbare : BareAssignment program node left)
    (hnew : ∀ statement ∈ program.children, ¬ DeclaresByName unit statement (left.text unit)) :
    MakesGlobal unit program (globalFact unit (left.text unit) .assignment node)

/-! ## Declared names -/

/-- A declarator has the name that it starts with. -/
theorem Tree.Formed.isTarget {declarator name : Tree} (h : declarator.Formed unit)
    (hkind : declarator.kind = .declarator) (hname : declarator.child? .name = some name) :
    name.IsTarget unit := by
  obtain ⟨first, rest, hchildren, hrole, htarget⟩ := h.declarator hkind
  rw [Tree.child?_of_children hchildren hrole, Option.some.injEq] at hname
  rwa [← hname]

/-- What starts with a bracket starts with no name. -/
theorem Tree.Placed.not_startsName {tree : Tree} (h : tree.Placed unit) (hopens : tree.OpensBracket unit) :
    ¬ StartsName (tree.chars unit) := by
  rintro ⟨c, rest, hchars, hsquare, hcurly⟩
  obtain ⟨first, others, hchildren, hstart, hbracket⟩ := hopens
  obtain ⟨before, after, hparts, hoffset⟩ := h.exists_chars (hchildren ▸ List.mem_cons_self)
  have hbefore : before = [] := by
    cases before with
    | nil => rfl
    | cons d before =>
      have hsize := d.utf8Size_pos
      rw [Text.byteLength, hstart] at hoffset
      omega
  rw [hbefore, List.nil_append, hchars] at hparts
  rcases hbracket with hbracket | hbracket
  · rw [hbracket] at hparts
    exact hsquare (List.cons.inj hparts).1
  · rw [hbracket] at hparts
    exact hcurly (List.cons.inj hparts).1

section Statements

variable {statement : Tree} {x : String}

theorem scriptNames_of_variables (h : statement.DeclaresVariables) :
    scriptNames unit statement = declaratorNames unit statement := by
  unfold scriptNames
  rcases h with h | h <;> rw [h]

theorem scriptNames_of_named (h : statement.DeclaresNamed) :
    x ∈ scriptNames unit statement ↔ ∃ name ∈ statement.child? .name, name.text unit = x := by
  have hnames : scriptNames unit statement = ((statement.child? .name).map (·.text unit)).toList := by
    unfold scriptNames
    rcases h with h | h | h <;> rw [h] <;> cases statement.child? .name <;> rfl
  rw [hnames, Option.mem_toList, Option.map_eq_some_iff]
  rfl

theorem scriptNames_eq_nil (hvariables : ¬ statement.DeclaresVariables) (hnamed : ¬ statement.DeclaresNamed) :
    scriptNames unit statement = [] := by
  unfold scriptNames
  split
  · exact absurd (.inl ‹_›) hvariables
  · exact absurd (.inr ‹_›) hvariables
  · exact absurd (.inl ‹_›) hnamed
  · exact absurd (.inr (.inl ‹_›)) hnamed
  · exact absurd (.inr (.inr ‹_›)) hnamed
  · rfl

theorem Tree.DeclaresVariables.not_named (h : statement.DeclaresVariables) : ¬ statement.DeclaresNamed := by
  unfold Tree.DeclaresNamed
  rcases h with h | h <;> rw [h] <;> decide

/-- The parts of a declaration that have names are its declarators. -/
theorem kind_of_mem_named (hmade : statement.WellMade unit) (hkind : statement.DeclaresVariables)
    {declarator name : Tree} (hdeclarator : declarator ∈ statement.named)
    (hname : declarator.child? .name = some name) : declarator.kind = .declarator := by
  obtain ⟨hchild, htoken⟩ := Tree.mem_named.1 hdeclarator
  rcases hmade.node.declaration hkind declarator hchild with h | h | h
  · exact absurd h htoken
  · have hnone := (hmade.of_mem_children hchild).node.comment h
    rw [Tree.child?, hnone] at hname
    cases hname
  · exact h

theorem mem_named_of_kind {declarator : Tree} (hchild : declarator ∈ statement.children)
    (hkind : declarator.kind = .declarator) : declarator ∈ statement.named :=
  Tree.mem_named.2 ⟨hchild, by rw [hkind]; decide⟩

variable (hplaced : statement.Placed unit) (hmade : statement.WellMade unit) (hx : StartsName x.toList)
include hplaced hmade hx

/-- Among the texts that declarators are known by, the names are those of identifiers. -/
theorem mem_declaratorNames (hkind : statement.DeclaresVariables) :
    x ∈ declaratorNames unit statement ↔
      ∃ declarator ∈ statement.children, declarator.kind = .declarator ∧
        ∃ name ∈ declarator.child? .name, name.kind = .identifier ∧ name.text unit = x := by
  unfold declaratorNames
  rw [List.mem_filterMap]
  constructor
  · rintro ⟨declarator, hdeclarator, h⟩
    obtain ⟨name, hname, rfl⟩ := Option.map_eq_some_iff.1 h
    obtain ⟨hchild, -⟩ := Tree.mem_named.1 hdeclarator
    have hdeclares := kind_of_mem_named hmade hkind hdeclarator hname
    refine ⟨declarator, hchild, hdeclares, name, hname, ?_, rfl⟩
    rcases (hmade.of_mem_children hchild).node.isTarget hdeclares hname with h | ⟨-, hopens⟩
    · exact h
    · have hinside := (hplaced.laid.of_mem hchild).laid.of_mem (Tree.mem_of_child? hname)
      rw [Tree.text, String.toList_ofList] at hx
      exact absurd hx (hinside.not_startsName hopens)
  · rintro ⟨declarator, hchild, hdeclares, name, hname, -, rfl⟩
    exact ⟨declarator, mem_named_of_kind hchild hdeclares, Option.map_eq_some_iff.2 ⟨name, hname, rfl⟩⟩

/-- The names that a statement declares for the whole script are those it has by itself. -/
theorem mem_scriptNames : x ∈ scriptNames unit statement ↔ DeclaresByName unit statement x := by
  unfold DeclaresByName
  by_cases hvariables : statement.DeclaresVariables
  · rw [scriptNames_of_variables hvariables, mem_declaratorNames hplaced hmade hx hvariables]
    simp [hvariables, hvariables.not_named]
  · by_cases hnamed : statement.DeclaresNamed
    · rw [scriptNames_of_named hnamed]
      simp [hvariables, hnamed]
    · rw [scriptNames_eq_nil hvariables hnamed]
      simp [hvariables, hnamed]

end Statements

/-! ## The globals of a script -/

/-- The globals that a statement makes, given the names that are declared. -/
theorem mem_scriptGlobalsAt {declared : List String} {statement : Tree} {g : GlobalVariable} :
    g ∈ scriptGlobalsAt unit declared statement ↔
      (statement.kind = .varDeclaration ∧ ∃ declarator ∈ statement.named, ∃ name,
        declarator.child? .name = some name ∧ name.kind = .identifier ∧
        globalFact unit (name.text unit) .var declarator = g) ∨
      (statement.kind = .expressionStatement ∧ ∃ node left, statement.named.head? = some node ∧
        node.kind = .assignment ∧ node.child? .left = some left ∧ left.kind = .identifier ∧
        left.text unit ∉ declared ∧ globalFact unit (left.text unit) .assignment node = g) := by
  unfold scriptGlobalsAt
  split
  · rename_i hvar
    simp only [List.mem_filterMap, hvar, reduceCtorEq, false_and, or_false, true_and]
    refine exists_congr fun declarator => and_congr_right fun _ => ?_
    cases declarator.child? .name with
    | none => simp
    | some name => simp
  · rename_i hexpression
    simp only [hexpression, reduceCtorEq, false_and, false_or, true_and]
    cases statement.named with
    | nil => simp
    | cons node rest =>
      by_cases hassignment : node.kind = .assignment
      · cases hleft : node.child? .left with
        | none => simp [hassignment, hleft]
        | some left => simp [hassignment, hleft, and_assoc, @eq_comm _ g]
      · simp [hassignment]
  · rename_i hvar hexpression
    refine ⟨fun h => absurd h List.not_mem_nil, ?_⟩
    rintro (⟨h, -⟩ | ⟨h, -⟩)
    · exact absurd h hvar
    · exact absurd h hexpression

section Programs

variable {program : Tree} (hplaced : program.Placed unit) (hmade : program.WellMade unit)
include hplaced hmade

/-- The names that are kept as declared, among those of identifiers. -/
theorem mem_flatMap_scriptNames {x : String} (hx : StartsName x.toList) :
    x ∈ program.named.flatMap (scriptNames unit) ↔
      ∃ statement ∈ program.children, DeclaresByName unit statement x := by
  have hone : ∀ statement ∈ program.children,
      (x ∈ scriptNames unit statement ↔ DeclaresByName unit statement x) := fun statement hstatement =>
    mem_scriptNames (hplaced.laid.of_mem hstatement) (hmade.of_mem_children hstatement) hx
  rw [List.mem_flatMap]
  constructor
  · rintro ⟨statement, hstatement, h⟩
    have hchild := (Tree.mem_named.1 hstatement).1
    exact ⟨statement, hchild, (hone statement hchild).1 h⟩
  · rintro ⟨statement, hstatement, h⟩
    have hmem := (hone statement hstatement).2 h
    refine ⟨statement, Tree.mem_named.2 ⟨hstatement, fun htoken => ?_⟩, hmem⟩
    rw [scriptNames, htoken] at hmem
    cases hmem

omit hplaced in
/-- A name that is assigned at the top of a script starts with no bracket. -/
theorem BareAssignment.startsName {node left : Tree} (h : BareAssignment program node left) :
    StartsName (left.text unit).toList := by
  obtain ⟨statement, hstatement, -, hnode, -, hleft, hkind⟩ := h
  have hchild : node ∈ statement.children := (Tree.mem_named.1 (List.mem_of_head? hnode)).1
  have hbelow := ((hmade.of_mem_children hstatement).of_mem_children hchild).of_mem_children
    (Tree.mem_of_child? hleft)
  rw [Tree.text, String.toList_ofList]
  exact hbelow.node.identifier hkind

/-- The globals of a classic script are those that it makes at its top. -/
theorem mem_scriptGlobals {g : GlobalVariable} :
    g ∈ scriptGlobals unit program ↔ MakesGlobal unit program g := by
  unfold scriptGlobals
  simp only [List.mem_flatMap, mem_scriptGlobalsAt]
  constructor
  · rintro ⟨statement, hstatement, ⟨hvar, declarator, hdeclarator, name, hname, hidentifier, rfl⟩ |
      ⟨hkind, node, left, hnode, hassignment, hleft, hidentifier, hnew, rfl⟩⟩
    · have hchild := (Tree.mem_named.1 hstatement).1
      exact .declarator hchild hvar (Tree.mem_named.1 hdeclarator).1
        (kind_of_mem_named (hmade.of_mem_children hchild) (.inl hvar) hdeclarator hname) hname hidentifier
    · have hbare : BareAssignment program node left :=
        ⟨statement, (Tree.mem_named.1 hstatement).1, hkind, hnode, hassignment, hleft, hidentifier⟩
      rw [← List.mem_flatMap, mem_flatMap_scriptNames hplaced hmade (hbare.startsName hmade)] at hnew
      exact .assignment hbare fun other hother hdeclares => hnew ⟨other, hother, hdeclares⟩
  · intro h
    cases h with
    | declarator hstatement hvar hdeclarator hkind hname hidentifier =>
      exact ⟨_, Tree.mem_named.2 ⟨hstatement, by rw [hvar]; decide⟩,
        .inl ⟨hvar, _, mem_named_of_kind hdeclarator hkind, _, hname, hidentifier, rfl⟩⟩
    | assignment hbare hnew =>
      have hx := hbare.startsName hmade
      obtain ⟨statement, hstatement, hkind, hnode, hassignment, hleft, hidentifier⟩ := hbare
      refine ⟨statement, Tree.mem_named.2 ⟨hstatement, by rw [hkind]; decide⟩,
        .inr ⟨hkind, _, _, hnode, hassignment, hleft, hidentifier, ?_, rfl⟩⟩
      rw [← List.mem_flatMap, mem_flatMap_scriptNames hplaced hmade hx]
      rintro ⟨other, hother, hdeclares⟩
      exact hnew other hother hdeclares

end Programs

/-! ## Their order -/

/-- Whether a global starts before another. -/
def GlobalVariable.Precedes (g other : GlobalVariable) : Prop := g.location.start.Before other.location.start

/-- A node around an identifier is not empty. -/
theorem lt_of_identifier {node name : Tree} (hplaced : node.Placed unit) (hmade : node.WellMade unit)
    {r : Role} (hname : node.child? r = some name) (hkind : name.kind = .identifier) :
    node.span.start < node.span.stop := by
  have hchild := Tree.mem_of_child? hname
  obtain ⟨c, rest, hchars, -⟩ := (hmade.of_mem_children hchild).node.identifier hkind
  exact hplaced.lt_of_mem hchild (by rw [hchars]; exact List.cons_ne_nil c rest)

/-- A global of a statement stands where a child of the statement does that is not empty. -/
theorem exists_of_mem_scriptGlobalsAt {declared : List String} {statement : Tree} {g : GlobalVariable}
    (hplaced : statement.Placed unit) (hmade : statement.WellMade unit)
    (h : g ∈ scriptGlobalsAt unit declared statement) :
    ∃ node ∈ statement.children, node.span.start < node.span.stop ∧ g.location = node.location unit := by
  rcases mem_scriptGlobalsAt.1 h with ⟨-, node, hnode, name, hname, hkind, rfl⟩ |
    ⟨-, node, left, hnode, -, hname, hkind, -, rfl⟩
  · have hchild := (Tree.mem_named.1 hnode).1
    have hbelow := hmade.of_mem_children hchild
    exact ⟨node, hchild, lt_of_identifier (hplaced.laid.of_mem hchild) hbelow hname hkind, rfl⟩
  · have hchild := (Tree.mem_named.1 (List.mem_of_head? hnode)).1
    have hbelow := hmade.of_mem_children hchild
    exact ⟨node, hchild, lt_of_identifier (hplaced.laid.of_mem hchild) hbelow hname hkind, rfl⟩

theorem before_location {a b : Tree} (ha : a.Placed unit) (hb : b.Placed unit)
    (h : a.span.start < b.span.start) : (a.location unit).start.Before (b.location unit).start :=
  Text.before_positionAt ha.fits.start hb.fits.start h

theorem pairwise_scriptGlobalsAt (declared : List String) {statement : Tree} (hplaced : statement.Placed unit)
    (hmade : statement.WellMade unit) :
    (scriptGlobalsAt unit declared statement).Pairwise GlobalVariable.Precedes := by
  unfold scriptGlobalsAt
  split
  · have hparts : statement.named.Pairwise fun a b => a.span.stop ≤ b.span.start :=
      hplaced.laid.pairwise.sublist List.filter_sublist
    rw [List.pairwise_filterMap]
    refine hparts.imp_of_mem fun {a b} ha hb hle g hg other hother => ?_
    cases hname : a.child? .name with
    | none => simp [hname] at hg
    | some name =>
      cases hsecond : b.child? .name with
      | none => simp [hsecond] at hother
      | some second =>
        simp only [hname, Option.ite_none_right_eq_some, Option.some.injEq, beq_iff_eq] at hg
        simp only [hsecond, Option.ite_none_right_eq_some, Option.some.injEq] at hother
        obtain ⟨hkind, rfl⟩ := hg
        obtain ⟨-, rfl⟩ := hother
        have hfirst := hplaced.of_mem_named ha
        have hlt := lt_of_identifier hfirst (hmade.of_mem_children (Tree.mem_named.1 ha).1) hname hkind
        exact before_location hfirst (hplaced.of_mem_named hb) (Nat.lt_of_lt_of_le hlt hle)
  · split
    · split
      · exact .nil
      · split
        · split
          · exact List.pairwise_singleton _ _
          · exact .nil
        · exact .nil
    · exact .nil
  · exact .nil

/-- The globals of a classic script stand in the order of the text, no two of them at one place. -/
theorem pairwise_scriptGlobals {program : Tree} (hplaced : program.Placed unit)
    (hmade : program.WellMade unit) : (scriptGlobals unit program).Pairwise GlobalVariable.Precedes := by
  have hstatements : program.named.Pairwise fun a b => a.span.stop ≤ b.span.start :=
    hplaced.laid.pairwise.sublist List.filter_sublist
  have hbelow : ∀ statement ∈ program.named, statement.Placed unit ∧ statement.WellMade unit :=
    fun statement h => ⟨hplaced.of_mem_named h, hmade.of_mem_children (Tree.mem_named.1 h).1⟩
  unfold scriptGlobals
  refine List.pairwise_flatMap.2 ⟨fun statement h => ?_, ?_⟩
  · exact pairwise_scriptGlobalsAt _ (hbelow statement h).1 (hbelow statement h).2
  · refine hstatements.imp_of_mem fun {a b} ha hb hle g hg other hother => ?_
    obtain ⟨node, hnode, hlt, hplace⟩ := exists_of_mem_scriptGlobalsAt (hbelow a ha).1 (hbelow a ha).2 hg
    obtain ⟨second, hsecond, -, hplace'⟩ :=
      exists_of_mem_scriptGlobalsAt (hbelow b hb).1 (hbelow b hb).2 hother
    have hstop := ((hbelow a ha).1.laid.bounds_of_mem hnode).2
    have hstart := ((hbelow b hb).1.laid.bounds_of_mem hsecond).1
    unfold GlobalVariable.Precedes
    rw [hplace, hplace']
    exact before_location ((hbelow a ha).1.laid.of_mem hnode) ((hbelow b hb).1.laid.of_mem hsecond) (by omega)

end AssetAudit.Script
