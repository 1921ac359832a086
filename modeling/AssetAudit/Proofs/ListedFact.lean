import AssetAudit.Error
import AssetAudit.Proofs.NodeFact
import AssetAudit.Proofs.NodeOrder
import Mathlib.Data.List.Sort

/-!
# The lists of facts

Each list of the facts of a unit has one entry for every node of the tree that shows such a fact, in the
order of the nodes (`listed_filterMap`), so the places at which entries start never go back
(`ascending_filterMap`). Listeners and operations are in the lists of their methods. The modules that a
unit refers to are put in order after they were gathered; as imports and exports are in order already,
that is to merge the two lists (`mergeSort_append_of_pairwise`).
-/
namespace AssetAudit

/-! ## Sorting two lists that are in order -/

section Sorting

variable {α : Type} {le : α → α → Bool}

/-- An entry that comes before all of a list is merged in where the other list lets it. -/
theorem merge_cons (htrans : ∀ a b c, le a b = true → le b c = true → le a c = true) {a : α}
    {xs : List α} (hxs : ∀ x ∈ xs, le a x = true) : ∀ ys : List α, ys.Pairwise (fun b c => le b c = true) →
      (a :: xs).merge ys le = (xs.merge ys le).takeWhile (fun b => !le a b) ++
        a :: (xs.merge ys le).dropWhile (fun b => !le a b)
  | [], _ => by
    cases xs with
    | nil => simp
    | cons x xs => simp [hxs x List.mem_cons_self]
  | y :: ys, hys => by
    obtain ⟨hy, hrest⟩ := List.pairwise_cons.1 hys
    rw [List.cons_merge_cons]
    split
    · rename_i hle
      have hall : ∀ b ∈ xs.merge (y :: ys) le, le a b = true := by
        intro b hb
        rcases List.mem_merge.1 hb with hb | hb
        · exact hxs b hb
        · rcases List.mem_cons.1 hb with rfl | hb
          · exact hle
          · exact htrans _ _ _ hle (hy b hb)
      cases hmerge : xs.merge (y :: ys) le with
      | nil => rfl
      | cons b bs =>
        have hfirst := hall b (by rw [hmerge]; exact List.mem_cons_self)
        simp [hfirst]
    · rename_i hnot
      -- an entry of `xs` before `y` would put `a` before `y` too
      have hmerge : xs.merge (y :: ys) le = y :: xs.merge ys le := by
        cases xs with
        | nil => simp
        | cons x xs =>
          rw [List.cons_merge_cons, if_neg]
          intro hxy
          exact hnot (htrans _ _ _ (hxs x List.mem_cons_self) hxy)
      rw [hmerge, merge_cons htrans hxs ys hrest]
      simp [hnot]

/-- To sort a list that is in order and another one behind it is to merge them. -/
theorem mergeSort_append_of_pairwise (htrans : ∀ a b c, le a b = true → le b c = true → le a c = true)
    (htotal : ∀ a b, (le a b || le b a) = true) {ys : List α} (hys : ys.Pairwise (fun b c => le b c = true)) :
    ∀ {xs : List α}, xs.Pairwise (fun b c => le b c = true) → (xs ++ ys).mergeSort le = xs.merge ys le
  | [], _ => by rw [List.nil_append, List.mergeSort_of_pairwise hys, List.nil_merge]
  | x :: xs, hxs => by
    obtain ⟨hx, hrest⟩ := List.pairwise_cons.1 hxs
    obtain ⟨before, after, hsort, hothers, hbefore⟩ := List.mergeSort_cons htrans htotal x (xs ++ ys)
    rw [mergeSort_append_of_pairwise htrans htotal hys hrest] at hothers
    have hafter : ∀ b ∈ after, le x b = true := by
      have hsorted := List.pairwise_mergeSort htrans htotal (x :: (xs ++ ys))
      rw [hsort] at hsorted
      exact (List.pairwise_cons.1 (List.pairwise_append.1 hsorted).2.1).1
    have htake : (before ++ after).takeWhile (fun b => !le x b) = before := by
      rw [List.takeWhile_append_of_pos hbefore]
      cases after with
      | nil => simp
      | cons b after => simp [hafter b List.mem_cons_self]
    have hdrop : (before ++ after).dropWhile (fun b => !le x b) = after := by
      rw [List.dropWhile_append_of_pos hbefore]
      cases after with
      | nil => rfl
      | cons b after => simp [hafter b List.mem_cons_self]
    rw [List.cons_append, hsort, merge_cons htrans hx ys hys, hothers, htake, hdrop]

end Sorting

namespace Script

variable {unit : List Char} {tree : Tree} {α : Type}

/-! ## Facts by their lists -/

theorem Fact.listener?_eq_some {adds : Bool} {fact : Fact} {l : Listener} :
    fact.listener? adds = some l ↔ fact = .listener l ∧ l.method.adds = adds := by
  cases fact with
  | listener other =>
    simp only [listener?, Option.ite_none_right_eq_some, beq_iff_eq, Option.some.injEq, Fact.listener.injEq]
    constructor
    · rintro ⟨hadds, rfl⟩
      exact ⟨rfl, hadds⟩
    · rintro ⟨rfl, hadds⟩
      exact ⟨hadds, rfl⟩
  | _ => simp [listener?]

theorem Fact.operation?_eq_some {methods : List ElementMethod} {fact : Fact} {o : ElementOperation} :
    fact.operation? methods = some o ↔ fact = .operation o ∧ o.method ∈ methods := by
  cases fact with
  | operation other =>
    simp only [operation?, Option.ite_none_right_eq_some, List.contains_iff_mem, Option.some.injEq,
      Fact.operation.injEq]
    constructor
    · rintro ⟨hmethod, rfl⟩
      exact ⟨rfl, hmethod⟩
    · rintro ⟨rfl, hmethod⟩
      exact ⟨hmethod, rfl⟩
  | _ => simp [operation?]

theorem Fact.imported?_eq_some {fact : Fact} {i : ImportDeclaration} :
    fact.imported? = some i ↔ fact = .imported i := by
  cases fact <;> simp [imported?]

theorem Fact.exported?_eq_some {fact : Fact} {e : ExportDeclaration} :
    fact.exported? = some e ↔ fact = .exported e := by
  cases fact <;> simp [exported?]

theorem Fact.function?_eq_some {fact : Fact} {f : FunctionDeclaration} :
    fact.function? = some f ↔ fact = .function f := by
  cases fact <;> simp [function?]

theorem Fact.declared?_eq_some {fact : Fact} {v : VariableDeclaration} :
    fact.declared? = some v ↔ fact = .declared v := by
  cases fact <;> simp [declared?]

/-- A list of facts of one kind has an entry for every node that shows one. -/
theorem listed_filterMap {select : Fact → Option α} {Gives : Visit → α → Prop}
    (hglobal : ∀ g, select (.global g) = none)
    (hgives : ∀ visit entry, (∃ fact, Shows unit visit fact ∧ select fact = some entry) ↔ Gives visit entry) :
    Listed tree Gives ((tree.visits.flatMap (factsAt unit)).filterMap select) := by
  rw [List.filterMap_flatMap]
  refine listed_flatMap (length_filterMap_factsAt_le hglobal) fun visit entry => ?_
  rw [← hgives, List.mem_filterMap]
  simp only [mem_factsAt]

/-! ## Facts in the order of the text -/

/-- Where a fact was found. -/
def Fact.location : Fact → Location
  | .global g => g.location
  | .listener l => l.location
  | .operation o => o.location
  | .imported i => i.location
  | .exported e => e.location
  | .function f => f.location
  | .declared v => v.location

theorem Shows.location_eq {visit : Visit} {fact : Fact} (h : Shows unit visit fact) :
    fact.location = visit.node.location unit := by
  cases h <;> rfl

/-- Whether entries are in the order of the places at which they start. -/
def Ascending (place : α → Location) (entries : List α) : Prop :=
  entries.Pairwise fun a b => ¬ (place b).start.Before (place a).start

theorem ascending_visits (h : tree.Placed unit) :
    Ascending Fact.location (tree.visits.flatMap (factsAt unit)) := by
  have hplace : ∀ {visit : Visit} {fact : Fact}, fact ∈ factsAt unit visit →
      fact.location.start = Text.positionAt unit visit.node.span.start := by
    intro visit fact hfact
    rw [(mem_factsAt.1 hfact).location_eq]
    rfl
  refine List.pairwise_flatMap.2 ⟨fun visit _ => ?_, ?_⟩
  · refine List.pairwise_of_forall_mem_list fun a ha b hb => ?_
    rw [hplace ha, hplace hb]
    exact Position.before_irrefl _
  · refine h.pairwise_visits.imp_of_mem fun {first second} hfirst hsecond hle a ha b hb => ?_
    rw [hplace ha, hplace hb]
    exact Text.not_before_positionAt (h.of_mem_visitsFrom hfirst).fits.start
      (h.of_mem_visitsFrom hsecond).fits.start hle

/-- The entries of a list of facts start in the order of the text. -/
theorem ascending_filterMap (h : tree.Placed unit) {select : Fact → Option α} {place : α → Location}
    (hselect : ∀ fact entry, select fact = some entry → fact.location = place entry) :
    Ascending place ((tree.visits.flatMap (factsAt unit)).filterMap select) := by
  refine (ascending_visits h).filterMap select fun a b hab x hx y hy => ?_
  rwa [← hselect a x hx, ← hselect b y hy]

/-! ## The facts of a unit -/

/-- Each list of facts but the globals has one entry for every node of a tree that shows one. -/
structure Facts.ListedBy (unit : List Char) (tree : Tree) (facts : Facts) : Prop where
  added : Listed tree (fun visit l => Shows unit visit (.listener l) ∧ l.method.adds = true) facts.added
  removed : Listed tree (fun visit l => Shows unit visit (.listener l) ∧ l.method.adds = false)
    facts.removed
  created : Listed tree (fun visit o => Shows unit visit (.operation o) ∧
    o.method ∈ [.createElement, .createTextNode]) facts.created
  appended : Listed tree (fun visit o => Shows unit visit (.operation o) ∧ o.method ∈ [.appendChild])
    facts.appended
  inserted : Listed tree (fun visit o => Shows unit visit (.operation o) ∧ o.method ∈ [.insertBefore])
    facts.inserted
  detached : Listed tree (fun visit o => Shows unit visit (.operation o) ∧ o.method ∈ [.removeChild])
    facts.detached
  markupWrites : Listed tree (fun visit o => Shows unit visit (.operation o) ∧
    o.method ∈ [.innerHtml, .outerHtml, .insertAdjacentHtml]) facts.markupWrites
  imports : Listed tree (fun visit i => Shows unit visit (.imported i)) facts.imports
  exports : Listed tree (fun visit e => Shows unit visit (.exported e)) facts.exports
  functions : Listed tree (fun visit f => Shows unit visit (.function f)) facts.functions
  declarations : Listed tree (fun visit v => Shows unit visit (.declared v)) facts.declarations

/-- Each list of facts but the globals is in the order of the text. -/
structure Facts.InOrder (facts : Facts) : Prop where
  added : Ascending (·.location) facts.added
  removed : Ascending (·.location) facts.removed
  created : Ascending (·.location) facts.created
  appended : Ascending (·.location) facts.appended
  inserted : Ascending (·.location) facts.inserted
  detached : Ascending (·.location) facts.detached
  markupWrites : Ascending (·.location) facts.markupWrites
  imports : Ascending (·.location) facts.imports
  exports : Ascending (·.location) facts.exports
  functions : Ascending (·.location) facts.functions
  declarations : Ascending (·.location) facts.declarations

/-- Listeners and operations are in the lists of their methods. -/
structure Facts.ByMethod (facts : Facts) : Prop where
  added : ∀ l ∈ facts.added, l.method ∈ [.addEventListener, .on, .jqueryOn]
  removed : ∀ l ∈ facts.removed, l.method ∈ [.removeEventListener, .off, .jqueryOff]
  created : ∀ o ∈ facts.created, o.method ∈ [.createElement, .createTextNode]
  appended : ∀ o ∈ facts.appended, o.method = .appendChild
  inserted : ∀ o ∈ facts.inserted, o.method = .insertBefore
  detached : ∀ o ∈ facts.detached, o.method = .removeChild
  markupWrites : ∀ o ∈ facts.markupWrites, o.method ∈ [.innerHtml, .outerHtml, .insertAdjacentHtml]

section Trees

variable (reading : Reading)

theorem listedBy_treeFacts (unit : List Char) (tree : Tree) :
    (treeFacts reading unit tree).ListedBy unit tree := by
  have hlistener : ∀ adds, Listed tree (fun visit l => Shows unit visit (.listener l) ∧
      l.method.adds = adds) ((tree.visits.flatMap (factsAt unit)).filterMap (Fact.listener? adds)) :=
    fun adds => listed_filterMap (fun _ => rfl) fun visit l => by simp [Fact.listener?_eq_some]
  have hoperation : ∀ methods, Listed tree (fun visit o => Shows unit visit (.operation o) ∧
      o.method ∈ methods) ((tree.visits.flatMap (factsAt unit)).filterMap (Fact.operation? methods)) :=
    fun methods => listed_filterMap (fun _ => rfl) fun visit o => by simp [Fact.operation?_eq_some]
  exact {
    added := hlistener true
    removed := hlistener false
    created := hoperation _
    appended := hoperation _
    inserted := hoperation _
    detached := hoperation _
    markupWrites := hoperation _
    imports := listed_filterMap (fun _ => rfl) fun visit i => by simp [Fact.imported?_eq_some]
    exports := listed_filterMap (fun _ => rfl) fun visit e => by simp [Fact.exported?_eq_some]
    functions := listed_filterMap (fun _ => rfl) fun visit f => by simp [Fact.function?_eq_some]
    declarations := listed_filterMap (fun _ => rfl) fun visit v => by simp [Fact.declared?_eq_some] }

theorem inOrder_treeFacts (h : tree.Placed unit) : (treeFacts reading unit tree).InOrder := by
  have hlistener : ∀ adds, Ascending (·.location)
      ((tree.visits.flatMap (factsAt unit)).filterMap (Fact.listener? adds)) :=
    fun adds => ascending_filterMap h fun fact l hl => by rw [(Fact.listener?_eq_some.1 hl).1]; rfl
  have hoperation : ∀ methods, Ascending (·.location)
      ((tree.visits.flatMap (factsAt unit)).filterMap (Fact.operation? methods)) :=
    fun methods => ascending_filterMap h fun fact o ho => by rw [(Fact.operation?_eq_some.1 ho).1]; rfl
  exact {
    added := hlistener true
    removed := hlistener false
    created := hoperation _
    appended := hoperation _
    inserted := hoperation _
    detached := hoperation _
    markupWrites := hoperation _
    imports := ascending_filterMap h fun fact i hi => by rw [Fact.imported?_eq_some.1 hi]; rfl
    exports := ascending_filterMap h fun fact e he => by rw [Fact.exported?_eq_some.1 he]; rfl
    functions := ascending_filterMap h fun fact f hf => by rw [Fact.function?_eq_some.1 hf]; rfl
    declarations := ascending_filterMap h fun fact v hv => by rw [Fact.declared?_eq_some.1 hv]; rfl }

theorem byMethod_treeFacts (unit : List Char) (tree : Tree) : (treeFacts reading unit tree).ByMethod := by
  have hlistener : ∀ {adds : Bool} {l : Listener},
      l ∈ (tree.visits.flatMap (factsAt unit)).filterMap (Fact.listener? adds) →
      l.method.adds = adds := by
    intro adds l hl
    obtain ⟨fact, -, hfact⟩ := List.mem_filterMap.1 hl
    exact (Fact.listener?_eq_some.1 hfact).2
  have hoperation : ∀ {methods : List ElementMethod} {o : ElementOperation},
      o ∈ (tree.visits.flatMap (factsAt unit)).filterMap (Fact.operation? methods) →
      o.method ∈ methods := by
    intro methods o ho
    obtain ⟨fact, -, hfact⟩ := List.mem_filterMap.1 ho
    exact (Fact.operation?_eq_some.1 hfact).2
  have hadds : ∀ method : ListenerMethod,
      method ∈ (if method.adds then [.addEventListener, .on, .jqueryOn]
        else [ListenerMethod.removeEventListener, .off, .jqueryOff]) := by
    rintro (_ | _ | _ | _ | _ | _) <;> decide
  refine ⟨fun l hl => ?_, fun l hl => ?_, fun o ho => hoperation ho, fun o ho => ?_, fun o ho => ?_,
    fun o ho => ?_, fun o ho => hoperation ho⟩
  · have hmethod := hadds l.method
    rwa [hlistener hl] at hmethod
  · have hmethod := hadds l.method
    rwa [hlistener hl] at hmethod
  · exact List.mem_singleton.1 (hoperation ho)
  · exact List.mem_singleton.1 (hoperation ho)
  · exact List.mem_singleton.1 (hoperation ho)

end Trees

/-! ## Modules -/

/-- Whether one place does not start after another. -/
def notLater (a b : Location × String) : Bool := ¬ b.1.start.Before a.1.start

theorem notLater_iff {a b : Location × String} : notLater a b = true ↔
    a.1.start.line < b.1.start.line ∨
      a.1.start.line = b.1.start.line ∧ a.1.start.column ≤ b.1.start.column := by
  unfold notLater Position.Before
  rw [decide_eq_true_iff]
  omega

theorem Facts.specifiers_eq_sort (facts : Facts) :
    facts.specifiers = ((facts.imports.map (fun i => (i.location, i.source)) ++
      facts.exports.filterMap (fun e => e.source.map (e.location, ·))).mergeSort notLater).map (·.2) := by
  have hle : (fun a b : Location × String => a.1.start.line < b.1.start.line ||
      (a.1.start.line == b.1.start.line && a.1.start.column ≤ b.1.start.column)) = notLater := by
    funext a b
    rw [Bool.eq_iff_iff, notLater_iff]
    simp
  rw [← hle]
  rfl

/-- The modules that facts in the order of the text refer to are those of the imports and those of the
exports, merged. -/
theorem Facts.InOrder.specifiers_eq {facts : Facts} (h : facts.InOrder) :
    facts.specifiers = ((facts.imports.map (fun i => (i.location, i.source))).merge
      (facts.exports.filterMap (fun e => e.source.map (e.location, ·))) notLater).map (·.2) := by
  have htrans : ∀ a b c, notLater a b = true → notLater b c = true → notLater a c = true := by
    intro a b c
    simp only [notLater_iff]
    omega
  have htotal : ∀ a b, (notLater a b || notLater b a) = true := by
    intro a b
    simp only [Bool.or_eq_true, notLater_iff]
    omega
  have himports : (facts.imports.map (fun i => (i.location, i.source))).Pairwise
      fun a b => notLater a b = true :=
    List.pairwise_map.2 (h.imports.imp fun hab => decide_eq_true hab)
  have hexports : (facts.exports.filterMap (fun e => e.source.map (e.location, ·))).Pairwise
      fun a b => notLater a b = true := by
    refine h.exports.filterMap _ fun a b hab x hx y hy => ?_
    obtain ⟨source, -, rfl⟩ := Option.map_eq_some_iff.1 hx
    obtain ⟨other, -, rfl⟩ := Option.map_eq_some_iff.1 hy
    exact decide_eq_true hab
  rw [facts.specifiers_eq_sort, mergeSort_append_of_pairwise htrans htotal hexports himports]

/-- The lists of the facts of a unit have one entry for every node of its tree that shows such a fact, in
the order of the text, and listeners and operations are in the lists of their methods. The modules that
the unit refers to are those of its imports and those of its exports, merged by where they start. -/
theorem facts_listed_in_order {reading : Reading} {code : String} {facts : Facts}
    (h : extract reading code = .ok facts) :
    ∃ tree, parse reading.dialect code.toList = .ok tree ∧ facts.ListedBy code.toList tree ∧
      facts.InOrder ∧ facts.ByMethod ∧
      facts.specifiers = ((facts.imports.map (fun i => (i.location, i.source))).merge
        (facts.exports.filterMap (fun e => e.source.map (e.location, ·))) notLater).map (·.2) := by
  unfold extract at h
  simp only at h
  split at h
  · rename_i tree htree
    cases h
    have horder := inOrder_treeFacts reading (placed_parse htree)
    exact ⟨tree, htree, listedBy_treeFacts reading _ tree, horder, byMethod_treeFacts reading _ tree,
      horder.specifiers_eq⟩
  · cases h

theorem nested_calls_listed :
    let code := "el.on('a', () => \x7b x.on('b', f); \x7d).on('c', g);\n" ++
      "export const lazy = import('./b');\nexport * from './a';\nrequire('./c');"
    ∃ facts, extract ⟨.javascript, false, []⟩ code = .ok facts ∧
      facts.added.map (·.event) = ["c", "a", "b"] ∧ facts.imports.map (·.source) = ["./b", "./c"] ∧
      facts.exports.map (·.source) = [none, some "./a"] ∧
      ∃ tree, parse .javascript code.toList = .ok tree ∧ facts.ListedBy code.toList tree ∧
        facts.InOrder := by
  intro code
  have hfound : (extract ⟨.javascript, false, []⟩ code).toOption.any fun facts =>
      facts.added.map (·.event) == ["c", "a", "b"] && facts.imports.map (·.source) == ["./b", "./c"] &&
        facts.exports.map (·.source) == [none, some "./a"] := by
    decide +kernel
  obtain ⟨facts, hfacts, hlists⟩ := exists_ok_of_any hfound
  simp only [Bool.and_eq_true, beq_iff_eq] at hlists
  obtain ⟨tree, htree, hlisted, horder, -⟩ := facts_listed_in_order hfacts
  exact ⟨facts, hfacts, hlists.1.1, hlists.1.2, hlists.2, tree, htree, hlisted, horder⟩

end Script
end AssetAudit
