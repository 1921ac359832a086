import AssetAudit.Proofs.ListedFact
import AssetAudit.Proofs.ReadingOption
import AssetAudit.Proofs.TextSearch

/-!
# The content of string literals

A text without quotation marks of one kind, backslashes and line breaks is read as the body of a literal
when it stands between two such marks (`literal_of_read_string`), and every string of a unit stands between
two marks (`exists_literal`). The value of a literal is its body without the marks of either kind at its ends
(`Literal.stringValue?_eq`), so it is the body itself exactly if the body has no mark at its ends. A literal
that names an event, a module or a global is the name of the one fact that is found there
(`NamesFact.factsAt_eq`), and that fact is recorded (`has_treeFacts`). Hence what is recorded is the content
of the literal exactly under that condition (`literal_content_recorded_iff`); `"'a'"` is recorded as `a`
(`outer_marks_lost`).
-/
namespace AssetAudit.Script

variable {unit : List Char}

/-! ## Literals -/

/-- A string node that is written as a body between two marks. -/
structure Literal (unit : List Char) (tree : Tree) (mark : Char) (body : List Char) : Prop where
  kind : tree.kind = .string
  quote : isQuote mark = true
  chars : tree.chars unit = mark :: (body ++ [mark])

/-- Whether a text has a quotation mark at neither end. -/
def BareEnds (body : List Char) : Prop :=
  body.head?.any isQuote = false ∧ body.getLast?.any isQuote = false

namespace Literal

variable {tree : Tree} {mark : Char} {body : List Char}

theorem stringValue?_eq (h : Literal unit tree mark body) :
    stringValue? unit tree = some (String.ofList (Text.trimMatches isQuote body)) := by
  rw [stringValue?, h.kind]
  simp only
  rw [h.chars, Text.trimMatches_between h.quote]

/-- The value of a literal is its body exactly if the body has no mark at its ends. -/
theorem exists_value (h : Literal unit tree mark body) : ∃ value, stringValue? unit tree = some value ∧
    (value = String.ofList body ↔ BareEnds body) := by
  refine ⟨_, h.stringValue?_eq, ?_⟩
  rw [String.ofList_inj]
  exact Text.trimMatches_eq_self_iff

end Literal

/-! ## Literals that are read -/

/-- A body that needs no escapes between its marks. -/
structure IsPlain (mark : Char) (body : List Char) : Prop where
  quote : isQuote mark = true
  mark : mark ∉ body
  escape : '\\' ∉ body
  lineFeed : '\n' ∉ body
  carriageReturn : '\x0d' ∉ body

theorem isQuote_iff {c : Char} : isQuote c = true ↔ c = '"' ∨ c = '\'' := by
  simp [isQuote]

theorem quotedTail_plain {mark : Char} (rest : List Char) : ∀ {body : List Char}, IsPlain mark body →
    quotedTail mark 0 (body ++ mark :: rest) = some (body.length + 1)
  | [], h => by simp [quotedTail]
  | c :: body, h => by
    obtain ⟨hquote, hmark, hescape, hfeed, hreturn⟩ := h
    simp only [List.mem_cons, not_or] at hmark hescape hfeed hreturn
    have ih := quotedTail_plain rest
      (⟨hquote, hmark.2, hescape.2, hfeed.2, hreturn.2⟩ : IsPlain mark body)
    simp [quotedTail, ih, Ne.symm hmark.1, Ne.symm hescape.1, Ne.symm hfeed.1, Ne.symm hreturn.1]

theorem quoted?_plain {mark : Char} {body : List Char} (h : IsPlain mark body) (rest : List Char) :
    quoted? (mark :: (body ++ mark :: rest)) = some (body.length + 2) := by
  have htail := quotedTail_plain rest h
  rcases isQuote_iff.1 h.quote with rfl | rfl
  · rw [quoted?, htail]
    rfl
  · rw [quoted?, htail]
    rfl

/-- Nothing is passed over before a mark. -/
theorem passTrivia_quote {mark : Char} (hquote : isQuote mark = true) {cursor : Cursor} {rest : List Char}
    (hrest : cursor.rest = mark :: rest) (atStatement : Bool) (n : Nat) (forest : List Tree) :
    passTrivia atStatement n cursor forest = (cursor, forest) := by
  cases n with
  | zero => rfl
  | succ n =>
    have hblanks : blanks cursor.rest = 0 := by
      rw [hrest]
      rcases isQuote_iff.1 hquote with rfl | rfl <;> rfl
    have hcomment : comment? atStatement cursor.rest = none := by
      rw [hrest]
      rcases isQuote_iff.1 hquote with rfl | rfl <;> rfl
    rw [passTrivia, hblanks]
    simp only [Cursor.skip, hcomment]

/-- Where a string is wanted, a plain body between two marks is read as a literal. -/
theorem literal_of_read_string {σ : Type} (g : Grammar σ) (s : Setting) (n : Nat) {mark : Char}
    {body back : List Char} {cursor : Cursor} (h : IsPlain mark body) (hplace : cursor.At unit)
    (hrest : cursor.rest = mark :: (body ++ mark :: back)) (forest : List Tree) (missed : Nat) :
    ∃ literal after, read g s (n + 1) (.token .quoted .string) ⟨cursor, forest, missed⟩ =
      .done ⟨after, literal :: forest, missed⟩ ∧ after.rest = back ∧ Literal unit literal mark body := by
  have hlength : Lexeme.quoted.length? cursor.rest = some (body.length + 2) := by
    rw [hrest]
    exact quoted?_plain h back
  refine ⟨leaf .string cursor (body.length + 2), cursor.skip (body.length + 2), ?_, ?_, rfl, h.quote, ?_⟩
  · simp only [read, passTrivia_quote h.quote hrest, readToken, hlength]
    rfl
  · rw [Cursor.rest_skip, hrest]
    simp
  · have hsplit : mark :: (body ++ mark :: back) = mark :: (body ++ [mark]) ++ back := by simp
    rw [chars_leaf hplace, hrest, hsplit, List.take_left' (by simp)]

/-- Every string of a unit is a literal. -/
theorem exists_literal {d : Dialect} {tree : Tree} (h : parse d unit = .ok tree) {visit : Visit}
    (hvisit : visit ∈ tree.visits) (hkind : visit.node.kind = .string) :
    ∃ mark body, Literal unit visit.node mark body := by
  obtain ⟨mark, body, hmark, hchars⟩ :=
    ((wellMade_parse h).of_mem_visitsFrom hvisit).node.string hkind
  exact ⟨mark, body, hkind, isQuote_iff.2 hmark, hchars⟩

/-! ## Names -/

/-- The name by which a fact refers to an event, a module or a global. -/
def Fact.name? : Fact → Option String
  | .listener l => some l.event
  | .imported i => some i.source
  | .exported e => e.source
  | .global g => some g.name
  | .operation _ | .function _ | .declared _ => none

/-- Whether a node is where another one says which event it listens to, which module it loads or exports
from, or which global it assigns. -/
inductive NamesFact (unit : List Char) (node literal : Tree) : Prop where
  | event {object handler : Tree} {name : String} {more : List Tree} (form : MethodCall unit node object name)
    (hname : name ∈ ["addEventListener", "removeEventListener", "on", "off"])
    (harguments : callArguments node = literal :: handler :: more)
  | loaded {callee : Tree} {more : List Tree} (hkind : node.kind = .call)
    (hcallee : node.child? .callee = some callee)
    (hload : callee.kind = .importWord ∨ callee.kind = .identifier ∧ callee.text unit = "require")
    (harguments : callArguments node = literal :: more)
  | imported (hkind : node.kind = .importStatement) (hsource : node.child? .source = some literal)
  | exported (hkind : node.kind = .exportStatement) (hsource : node.child? .source = some literal)
  | index {object : Tree} (form : IndexAssignment node object literal)
    (hglobal : isGlobalObject unit object = true)

theorem exists_listenerMethod? {name : String}
    (h : name ∈ ["addEventListener", "removeEventListener", "on", "off"]) (jquery : Bool) :
    ∃ method, listenerMethod? name jquery = some method := by
  simp only [List.mem_cons, List.not_mem_nil, or_false] at h
  rcases h with rfl | rfl | rfl | rfl <;> exact ⟨_, rfl⟩

/-- One fact is found where a literal names it, and its name is the value of the literal. -/
theorem NamesFact.factsAt_eq {visit : Visit} {literal : Tree} {value : String}
    (h : NamesFact unit visit.node literal) (hvalue : stringValue? unit literal = some value) :
    ∃ fact, factsAt unit visit = [fact] ∧ fact.name? = some value := by
  cases h with
  | @event object handler name more form hname harguments =>
    obtain ⟨method, hmethod⟩ := exists_listenerMethod? hname (jqueryElement? unit object).isSome
    have hmem := mem_factsAt_of_shows (.listener form harguments hmethod)
    have hone : (factsAt unit visit).length = 1 := by
      refine Nat.le_antisymm ?_ (List.length_pos_of_mem hmem)
      rw [form.factsAt_eq]
      exact length_memberCallFacts_le visit object name _
    obtain ⟨fact, hfacts⟩ := List.length_eq_one_iff.1 hone
    rw [hfacts, List.mem_singleton] at hmem
    refine ⟨fact, hfacts, ?_⟩
    rw [← hmem, Fact.name?, eventName, hvalue]
  | loaded hkind hcallee hload harguments =>
    rcases hload with hword | ⟨hname, hrequire⟩
    · have hcall : LoadCall unit visit.node .dynamic value :=
        ⟨hkind, ⟨_, hcallee, .inl ⟨rfl, hword⟩⟩, literal, _, harguments, hvalue⟩
      exact ⟨_, hcall.factsAt_eq, rfl⟩
    · have hcall : LoadCall unit visit.node .require value :=
        ⟨hkind, ⟨_, hcallee, .inr ⟨rfl, hname, hrequire⟩⟩, literal, _, harguments, hvalue⟩
      exact ⟨_, hcall.factsAt_eq, rfl⟩
  | imported hkind hsource =>
    have hbind : (visit.node.child? .source).bind (stringValue? unit) = some value := by
      rw [hsource, Option.bind_some, hvalue]
    rw [factsAt, hkind]
    simp only [importStatementFacts, hbind]
    exact ⟨_, rfl, rfl⟩
  | exported hkind hsource =>
    rw [factsAt, hkind]
    refine ⟨_, rfl, ?_⟩
    rw [exportFact, Fact.name?, hsource, Option.bind_some, hvalue]
  | index form hglobal =>
    obtain ⟨hkind, left, hleft, hsubscript, hobject, hindex⟩ := form
    exact ⟨.global (globalFact unit value .assignment visit.node),
      by simp [factsAt, hkind, assignmentFacts, hleft, hsubscript, hobject, hindex, hglobal, hvalue], rfl⟩

/-! ## Recorded facts -/

/-- Whether a fact is in the list of its kind. -/
def Facts.Has (facts : Facts) : Fact → Prop
  | .global g => g ∈ facts.globals
  | .listener l => l ∈ (if l.method.adds then facts.added else facts.removed)
  | .operation o => o ∈ facts.created ++ facts.appended ++ facts.inserted ++ facts.detached ++
      facts.markupWrites
  | .imported i => i ∈ facts.imports
  | .exported e => e ∈ facts.exports
  | .function f => f ∈ facts.functions
  | .declared v => v ∈ facts.declarations

/-- Whether a fact is to be recorded: all but the globals with an ignored name are. -/
def Fact.IsKept (patterns : List String) : Fact → Prop
  | .global g => g.IsKept patterns
  | _ => True

/-- What is found at a node of a tree is recorded, unless it is ignored. -/
theorem has_treeFacts (reading : Reading) {tree : Tree} {visit : Visit} (hvisit : visit ∈ tree.visits)
    {fact : Fact} (hfact : fact ∈ factsAt unit visit) :
    (treeFacts reading unit tree).Has fact ↔ fact.IsKept reading.ignoredGlobals := by
  have hmem : ∀ {α : Type} (select : Fact → Option α) {entry : α}, select fact = some entry →
      entry ∈ (tree.visits.flatMap (factsAt unit)).filterMap select := fun _ _ hselect =>
    List.mem_filterMap.2 ⟨fact, List.mem_flatMap.2 ⟨visit, hvisit, hfact⟩, hselect⟩
  cases fact with
  | global g =>
    show g ∈ (treeFacts reading unit tree).globals ↔ _
    rw [globals_treeFacts, List.mem_filter, decide_eq_true_iff]
    exact and_iff_right (List.mem_append_right _ (hmem Fact.global? rfl))
  | listener l =>
    refine iff_of_true ?_ trivial
    show l ∈ (if l.method.adds then _ else _)
    split
    · rename_i hadds
      exact hmem _ (Fact.listener?_eq_some.2 ⟨rfl, hadds⟩)
    · rename_i hadds
      exact hmem _ (Fact.listener?_eq_some.2 ⟨rfl, Bool.eq_false_iff.2 hadds⟩)
  | operation o =>
    refine iff_of_true ?_ trivial
    have hlist : ∀ methods, o.method ∈ methods →
        o ∈ (tree.visits.flatMap (factsAt unit)).filterMap (Fact.operation? methods) :=
      fun methods hmethod => hmem _ (Fact.operation?_eq_some.2 ⟨rfl, hmethod⟩)
    simp only [Facts.Has, List.mem_append, treeFacts, Facts.ofList]
    cases hmethod : o.method with
    | createElement | createTextNode => exact .inl (.inl (.inl (.inl (hlist _ (by simp [hmethod])))))
    | appendChild => exact .inl (.inl (.inl (.inr (hlist _ (by simp [hmethod])))))
    | insertBefore => exact .inl (.inl (.inr (hlist _ (by simp [hmethod]))))
    | removeChild => exact .inl (.inr (hlist _ (by simp [hmethod])))
    | innerHtml | outerHtml | insertAdjacentHtml => exact .inr (hlist _ (by simp [hmethod]))
  | imported i => exact iff_of_true (hmem Fact.imported? rfl) trivial
  | exported e => exact iff_of_true (hmem Fact.exported? rfl) trivial
  | function f => exact iff_of_true (hmem Fact.function? rfl) trivial
  | declared v => exact iff_of_true (hmem Fact.declared? rfl) trivial

/-! ## What is recorded of literals -/

/-- Where a string is wanted, a body without its mark, backslashes and line breaks is read as a literal when
it stands between two marks, and the value of the literal is the body exactly if the body has no mark at its
ends, which could only be of the other kind. In a unit that can be read every string is a literal, and one
that names an event, a module or a global names the one fact of its node. The fact is recorded, unless it is a
global with an ignored name, and its name is the body of the literal exactly if the body has no mark at its
ends. -/
theorem literal_content_recorded_iff (reading : Reading) (code : String) :
    (∀ (s : Setting) (n : Nat) (mark : Char) (body back : List Char) (cursor : Cursor) (forest : List Tree)
      (missed : Nat), IsPlain mark body → cursor.At code.toList →
      cursor.rest = mark :: (body ++ mark :: back) →
      ∃ literal after, read (grammar reading.dialect) s (n + 1) Grammar.string ⟨cursor, forest, missed⟩ =
          .done ⟨after, literal :: forest, missed⟩ ∧ after.rest = back ∧
        ∃ value, stringValue? code.toList literal = some value ∧
          (value = String.ofList body ↔ BareEnds body)) ∧
    ∀ facts, extract reading code = .ok facts →
      ∃ tree, parse reading.dialect code.toList = .ok tree ∧
        (∀ visit ∈ tree.visits, visit.node.kind = .string →
          ∃ mark body, Literal code.toList visit.node mark body) ∧
        ∀ visit ∈ tree.visits, ∀ literal mark body, Literal code.toList literal mark body →
          NamesFact code.toList visit.node literal →
          ∃ fact, (∀ other, Shows code.toList visit other ↔ other = fact) ∧
            (facts.Has fact ↔ fact.IsKept reading.ignoredGlobals) ∧
            (fact.name? = some (String.ofList body) ↔ BareEnds body) := by
  constructor
  · intro s n mark body back cursor forest missed hplain hplace hrest
    obtain ⟨literal, after, hread, hback, hliteral⟩ :=
      literal_of_read_string (grammar reading.dialect) s n hplain hplace hrest forest missed
    exact ⟨literal, after, hread, hback, hliteral.exists_value⟩
  · intro facts h
    unfold extract at h
    simp only at h
    split at h
    · rename_i tree hparse
      cases h
      refine ⟨tree, hparse, fun visit => exists_literal hparse, ?_⟩
      intro visit hvisit literal mark body hliteral hnames
      obtain ⟨value, hvalue, hbody⟩ := hliteral.exists_value
      obtain ⟨fact, hfacts, hname⟩ := hnames.factsAt_eq hvalue
      refine ⟨fact, fun other => ?_, has_treeFacts reading hvisit (by simp [hfacts]), ?_⟩
      · rw [← mem_factsAt, hfacts, List.mem_singleton]
      · rw [hname, Option.some.injEq, hbody]
    · cases h

theorem inner_marks_recorded :
    let code := "import \"./it's\";\nel.on('say \"hi\" now', f);\nwindow[\"x'y\"] = 1;"
    let unit := "\"x'y\""
    (∃ literal after, read (grammar .javascript) ⟨false, false, true⟩ 1 Grammar.string
        ⟨Cursor.ofText unit.toList, [], 0⟩ = .done ⟨after, [literal], 0⟩ ∧
        stringValue? unit.toList literal = some "x'y") ∧
      ∃ facts, extract ⟨.javascript, false, []⟩ code = .ok facts ∧
        facts.imports.map (·.source) = ["./it's"] ∧ facts.added.map (·.event) = ["say \"hi\" now"] ∧
        facts.globals.map (·.name) = ["x'y"] ∧
        ∃ tree, parse .javascript code.toList = .ok tree ∧ ∀ visit ∈ tree.visits, visit.node.kind = .string →
          ∃ mark body, Literal code.toList visit.node mark body := by
  intro code unit
  constructor
  · have hplain : IsPlain '"' "x'y".toList := ⟨rfl, by decide, by decide, by decide, by decide⟩
    have hbare : BareEnds "x'y".toList := ⟨rfl, rfl⟩
    obtain ⟨literal, after, hdone, -, value, hvalue, hcontent⟩ :=
      (literal_content_recorded_iff ⟨.javascript, false, []⟩ unit).1 ⟨false, false, true⟩ 0 _ _ []
        (Cursor.ofText unit.toList) [] 0 hplain (Cursor.at_ofText unit.toList) (by decide)
    refine ⟨literal, after, hdone, ?_⟩
    rw [hvalue, hcontent.2 hbare, String.ofList_toList]
  · have hfound : (extract ⟨.javascript, false, []⟩ code).toOption.any fun facts =>
        facts.imports.map (·.source) == ["./it's"] && facts.added.map (·.event) == ["say \"hi\" now"] &&
          facts.globals.map (·.name) == ["x'y"] := by
      decide +kernel
    obtain ⟨facts, hfacts, hlists⟩ := exists_ok_of_any hfound
    simp only [Bool.and_eq_true, beq_iff_eq] at hlists
    obtain ⟨tree, htree, hliterals, -⟩ := (literal_content_recorded_iff _ _).2 facts hfacts
    exact ⟨facts, hfacts, hlists.1.1, hlists.1.2, hlists.2, tree, htree, hliterals⟩

/-- Marks of the other kind at the ends of a literal are lost, and the global is recorded without them. -/
theorem outer_marks_lost :
    let code := "window[\"'a'\"] = 1;"
    let body := "'a'".toList
    IsPlain '"' body ∧ ∃ tree facts, parse .javascript code.toList = .ok tree ∧
      extract ⟨.javascript, false, []⟩ code = .ok facts ∧
      (∃ visit ∈ tree.visits, ∃ literal, Literal code.toList literal '"' body ∧
        NamesFact code.toList visit.node literal ∧
        stringValue? code.toList literal ≠ some (String.ofList body)) ∧
      facts.globals.map (·.name) = ["a"] := by
  intro code body
  refine ⟨⟨rfl, by decide, by decide, by decide, by decide⟩, ?_⟩
  have hfound : (parse .javascript code.toList).toOption.any fun tree =>
      (∃ visit ∈ tree.visits, visit.node.kind = .assignment ∧
        ∃ left ∈ visit.node.child? .left, left.kind = .subscript ∧
          ∃ object ∈ left.child? .object, isGlobalObject code.toList object = true ∧
            ∃ index ∈ left.child? .index, index.kind = .string ∧
              index.chars code.toList = '"' :: (body ++ ['"']) ∧
              stringValue? code.toList index ≠ some (String.ofList body)) ∧
      (treeFacts ⟨.javascript, false, []⟩ code.toList tree).globals.map (·.name) = ["a"] := by
    decide +kernel
  obtain ⟨tree, hparse, hrecorded⟩ := exists_ok_of_any hfound
  obtain ⟨⟨visit, hvisit, hkind, left, hleft, hsubscript, object, hobject, hglobal, index, hindex, hstring,
    hchars, hvalue⟩, hnames⟩ := of_decide_eq_true hrecorded
  refine ⟨tree, treeFacts ⟨.javascript, false, []⟩ code.toList tree, hparse, ?_, ?_, hnames⟩
  · unfold extract
    simp only [hparse]
  · exact ⟨visit, hvisit, index, ⟨hstring, rfl, hchars⟩,
      .index ⟨hkind, left, hleft, hsubscript, hobject, hindex⟩ hglobal, hvalue⟩

end AssetAudit.Script
