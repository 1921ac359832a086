import AssetAudit.Proofs.DefinitionLookup
import Mathlib.Logic.Function.Iterate

/-!
# Lookups that interleave

Several listeners can be resolved at the same time over one memory. A `Call` is such a lookup between
two accesses to the memory: `advance` makes the next one, a lookup or an insertion, and a schedule says
whose turn it is. Nothing is held between a lookup that finds nothing and the insertion that follows.

A call that is alone runs as `resolveKey` does (`reaches_resolveKey`). In whatever order calls advance,
the memory stays sound and every call stands where its answer is the one of `keyOf?`
(`advance_inv`, `run_inv`), and it comes closer to its end with each of its turns
(`advance_left`, `run_left`).
-/
namespace AssetAudit.Analysis.Listener

open AssetAudit.Script (Facts)
open AssetAudit.Path (components IsNormal)
open Dependency (reachable)
open Memory (searchSettings factsOnDisk?)

/-! ## The accesses of a lookup -/

/-- The access to the memory that comes next. The facts of the source file are followed by its imports
(`none`), those of an imported file by the files that are still to be searched. -/
inductive Stage where
  | findDefinition
  | findFacts (path : String) (rest : Option (List String))
  | keepFacts (path : String) (facts : Option Facts) (rest : Option (List String))
  | findImports
  | keepImports (found : List String)
  | keepDefinition (key : Option String)
  | returned (key : Option String)

namespace Stage

/-- Search files one after another. -/
def search : List String → Stage
  | [] => keepDefinition none
  | path :: rest => findFacts path (some rest)

/-- After the facts of a file: the declaration in it, or the next files. -/
def afterFacts (root handler path : String) (facts : Option Facts) (rest : Option (List String)) :
    Stage :=
  match facts.bind (·.definition? handler) with
  | some place => keepDefinition (some (definitionKey root path place))
  | none =>
    match rest with
    | none => findImports
    | some paths => search paths

/-- After the imports of a file: search those that are not the file. -/
def afterImports (source : String) (found : List String) : Stage :=
  search (found.filter fun other => components other != components source)

/-- One access to the memory, in a lookup of a handler that a source file names. -/
def advance (project : Project) (source handler : String) : Stage → Memory → Stage × Memory
  | findDefinition, memory =>
    match memory.definition? source handler with
    | some key => (returned key, memory)
    | none => (findFacts source none, memory)
  | findFacts path rest, memory =>
    match memory.parsed? path with
    | some facts => (afterFacts project.root handler path facts rest, memory)
    | none => (keepFacts path (factsOnDisk? project.disk project.ignoredGlobals path) rest, memory)
  | keepFacts path facts rest, memory =>
    (afterFacts project.root handler path facts rest, memory.insertParsed path facts)
  | findImports, memory =>
    match memory.imports? source with
    | some found => (afterImports source found, memory)
    | none => (keepImports (reachable project.disk (searchSettings project.root) source), memory)
  | keepImports found, memory => (afterImports source found, memory.insertImports source found)
  | keepDefinition key, memory => (returned key, memory.insertDefinition source handler key)
  | returned key, memory => (returned key, memory)

end Stage

/-- A lookup of the declaration of a listener's handler. -/
structure Call where
  listener : Script.Listener
  origin : SourceMap.Origin
  stage : Stage

namespace Call

def start (query : Script.Listener × SourceMap.Origin) : Call :=
  ⟨query.1, query.2, if query.2.isKnown then .findDefinition else .returned none⟩

def advance (audit : Audit) (call : Call) (memory : Memory) : Call × Memory :=
  let next := call.stage.advance (projectOf audit) (sourceFile audit.root call.origin)
    call.listener.definition memory
  ({ call with stage := next.1 }, next.2)

end Call

/-- Lookups over one memory. -/
structure Lookups where
  memory : Memory
  calls : List Call

namespace Lookups

def start (audit : Audit) (queries : List (Script.Listener × SourceMap.Origin)) : Lookups :=
  ⟨Memory.ofFiles audit.root audit.files, queries.map Call.start⟩

/-- The turn of one call. -/
def step (audit : Audit) (lookups : Lookups) (turn : Nat) : Lookups :=
  match lookups.calls[turn]? with
  | none => lookups
  | some call =>
    let next := call.advance audit lookups.memory
    ⟨next.2, lookups.calls.set turn next.1⟩

/-- Turn after turn, in the order of a schedule. -/
def run (audit : Audit) (lookups : Lookups) (schedule : List Nat) : Lookups :=
  schedule.foldl (step audit) lookups

end Lookups

/-! ## A call that is alone -/

/-- Where a lookup comes to if nothing else happens to the memory. -/
def Reaches (project : Project) (source handler : String) (before after : Stage × Memory) : Prop :=
  ∃ turns, Nat.iterate (fun state : Stage × Memory =>
    state.1.advance project source handler state.2) turns before = after

variable {project : Project} {source handler : String}

theorem Reaches.refl (state : Stage × Memory) : Reaches project source handler state state := ⟨0, rfl⟩

theorem Reaches.trans {a b c : Stage × Memory} (hab : Reaches project source handler a b)
    (hbc : Reaches project source handler b c) : Reaches project source handler a c := by
  obtain ⟨m, rfl⟩ := hab
  obtain ⟨n, rfl⟩ := hbc
  exact ⟨n + m, Function.iterate_add_apply _ n m a⟩

theorem Reaches.head {stage : Stage} {memory : Memory} {after : Stage × Memory}
    (h : Reaches project source handler (stage.advance project source handler memory) after) :
    Reaches project source handler (stage, memory) after :=
  Reaches.trans ⟨1, rfl⟩ h

/-- Both ways to the facts of a file come to the same stage. -/
theorem reaches_afterFacts (path : String) (rest : Option (List String)) (memory : Memory) :
    Reaches project source handler (.findFacts path rest, memory)
      (.afterFacts project.root handler path
        (memory.facts? project.disk project.ignoredGlobals path).1 rest,
        (memory.facts? project.disk project.ignoredGlobals path).2) := by
  unfold Memory.facts?
  refine Reaches.head ?_
  simp only [Stage.advance]
  cases memory.parsed? path with
  | some facts => exact .refl _
  | none => exact Reaches.head (.refl _)

theorem reaches_search : ∀ (paths : List String) (memory : Memory),
    Reaches project source handler (.search paths, memory)
      (.keepDefinition (findIn project handler paths memory).1,
        (findIn project handler paths memory).2)
  | [], _ => .refl _
  | path :: rest, memory => by
    refine (reaches_afterFacts path (some rest) memory).trans ?_
    simp only [findIn, Stage.afterFacts]
    cases (memory.facts? project.disk project.ignoredGlobals path).1.bind (·.definition? handler) with
    | some place => exact .refl _
    | none => exact reaches_search rest _

theorem reaches_afterImports (memory : Memory) :
    Reaches project source handler (.findImports, memory)
      (.afterImports source (memory.dependenciesOf project.disk project.root source).1,
        (memory.dependenciesOf project.disk project.root source).2) := by
  unfold Memory.dependenciesOf
  refine Reaches.head ?_
  simp only [Stage.advance]
  cases memory.imports? source with
  | some found => exact .refl _
  | none =>
    refine Reaches.head ?_
    simp only [Stage.advance]
    exact .refl _

theorem reaches_findDefinition (memory : Memory) :
    Reaches project source handler (.findFacts source none, memory)
      (.keepDefinition (findDefinition project source handler memory).1,
        (findDefinition project source handler memory).2) := by
  refine (reaches_afterFacts source none memory).trans ?_
  simp only [findDefinition, findIn, Stage.afterFacts]
  cases (memory.facts? project.disk project.ignoredGlobals source).1.bind
    (·.definition? handler) with
  | some place => exact .refl _
  | none => exact (reaches_afterImports _).trans (reaches_search _ _)

theorem reaches_keepDefinition (memory : Memory) :
    Reaches project source handler (.findFacts source none, memory)
      (.returned (findDefinition project source handler memory).1,
        (findDefinition project source handler memory).2.insertDefinition source handler
          (findDefinition project source handler memory).1) := by
  refine (reaches_findDefinition memory).trans (Reaches.head ?_)
  simp only [Stage.advance]
  exact .refl _

/-- A call that is alone does what `resolveKey` does, to its key and to the memory. -/
theorem reaches_resolveKey (audit : Audit) (query : Script.Listener × SourceMap.Origin)
    (memory : Memory) :
    Reaches (projectOf audit) (sourceFile audit.root query.2) query.1.definition
      ((Call.start query).stage, memory)
      (.returned (resolveKey audit query.1 query.2 memory).1,
        (resolveKey audit query.1 query.2 memory).2) := by
  unfold resolveKey Call.start
  by_cases hknown : query.2.isKnown = true
  · rw [if_pos hknown, if_pos hknown]
    refine Reaches.head ?_
    simp only [Stage.advance]
    cases memory.definition? (sourceFile audit.root query.2) query.1.definition with
    | some key => exact .refl _
    | none => exact reaches_keepDefinition memory
  · rw [if_neg hknown, if_neg hknown]
    exact .refl _

/-! ## Where calls stand -/

variable {files : List SurveyedFile} {memory : Memory}

/-- What the facts of a file decide: they are those of the source, or the answer is in the file or in
the ones behind it. -/
def Awaits (project : Project) (files : List SurveyedFile) (source handler path : String) :
    Option (List String) → Prop
  | none => path = source
  | some rest => (∀ other ∈ path :: rest, IsNormal other) ∧
      definitionOf? project files source handler = declaredIn? project files handler (path :: rest)

/-- A stage from which the lookup comes to the right answer. -/
inductive Stage.Holds (project : Project) (files : List SurveyedFile) (source handler : String) :
    Stage → Prop
  | findDefinition : Holds project files source handler .findDefinition
  | findFacts {path : String} {rest : Option (List String)}
      (awaits : Awaits project files source handler path rest) :
      Holds project files source handler (.findFacts path rest)
  | keepFacts {path : String} {facts : Option Facts} {rest : Option (List String)}
      (right : facts = factsOf? project files path)
      (awaits : Awaits project files source handler path rest) :
      Holds project files source handler (.keepFacts path facts rest)
  | findImports (missing : declaredIn? project files handler [source] = none) :
      Holds project files source handler .findImports
  | keepImports {found : List String}
      (right : found = reachable project.disk (searchSettings project.root) source)
      (missing : declaredIn? project files handler [source] = none) :
      Holds project files source handler (.keepImports found)
  | keepDefinition {key : Option String}
      (right : key = definitionOf? project files source handler) :
      Holds project files source handler (.keepDefinition key)
  | returned {key : Option String} (right : key = definitionOf? project files source handler) :
      Holds project files source handler (.returned key)

theorem Awaits.isNormal {path : String} : ∀ {rest : Option (List String)},
    Awaits project files source handler path rest → IsNormal source → IsNormal path
  | none, h, hsource => h ▸ hsource
  | some _, h, _ => h.1 _ List.mem_cons_self

theorem holds_search : ∀ {paths : List String}, (∀ path ∈ paths, IsNormal path) →
    definitionOf? project files source handler = declaredIn? project files handler paths →
    (Stage.search paths).Holds project files source handler
  | [], _, h => .keepDefinition h.symm
  | _ :: _, hpaths, h => .findFacts ⟨hpaths, h⟩

theorem declaredIn?_cons (project : Project) (files : List SurveyedFile) (handler path : String)
    (others : List String) :
    declaredIn? project files handler (path :: others) =
      match (factsOf? project files path).bind (·.definition? handler) with
      | some place => some (definitionKey project.root path place)
      | none => declaredIn? project files handler others := by
  rw [declaredIn?, List.findSome?_cons]
  cases (factsOf? project files path).bind (·.definition? handler) with
  | some place => rfl
  | none => rfl

theorem holds_afterFacts {path : String} {rest : Option (List String)}
    (h : Awaits project files source handler path rest) :
    (Stage.afterFacts project.root handler path (factsOf? project files path) rest).Holds
      project files source handler := by
  have hcons := declaredIn?_cons project files handler path
  unfold Stage.afterFacts
  cases hfound : (factsOf? project files path).bind (·.definition? handler) with
  | some place =>
    simp only [hfound] at hcons ⊢
    refine .keepDefinition ?_
    cases rest with
    | none =>
      rw [definitionOf?, ← show path = source from h, hcons]
    | some paths => rw [h.2, hcons]
  | none =>
    simp only [hfound] at hcons ⊢
    cases rest with
    | none =>
      refine .findImports ?_
      rw [← show path = source from h, hcons]
      rfl
    | some paths =>
      refine holds_search (fun other ho => h.1 other (List.mem_cons_of_mem _ ho)) ?_
      rw [h.2, hcons]

theorem holds_afterImports (hsource : IsNormal source)
    (h : declaredIn? project files handler [source] = none) :
    (Stage.afterImports source (reachable project.disk (searchSettings project.root) source)).Holds
      project files source handler := by
  unfold Stage.afterImports
  rw [filter_reachable_eq hsource]
  refine holds_search (fun other => isNormal_of_mem_importsOf) ?_
  rw [definitionOf?_eq, h, Option.none_or]

/-- One access keeps the memory sound and the call on its way. -/
theorem advance_inv (hsound : Sound project files memory) (hsource : IsNormal source) {stage : Stage}
    (h : stage.Holds project files source handler) :
    ((stage.advance project source handler memory).1).Holds project files source handler ∧
      Sound project files (stage.advance project source handler memory).2 := by
  cases h with
  | findDefinition =>
    simp only [Stage.advance]
    split
    · rename_i key hfound
      exact ⟨.returned (hsound.definition?_eq hsource hfound), hsound⟩
    · exact ⟨.findFacts rfl, hsound⟩
  | @findFacts path rest awaits =>
    have hpath := awaits.isNormal hsource
    simp only [Stage.advance]
    split
    · rename_i facts hfound
      rw [hsound.parsed?_eq hpath hfound]
      exact ⟨holds_afterFacts awaits, hsound⟩
    · rename_i hmissing
      exact ⟨.keepFacts (hsound.factsOf?_of_missing hpath hmissing).symm awaits, hsound⟩
  | @keepFacts path facts rest right awaits =>
    simp only [Stage.advance, right]
    exact ⟨holds_afterFacts awaits, hsound.insertParsed (awaits.isNormal hsource)⟩
  | findImports missing =>
    simp only [Stage.advance]
    split
    · rename_i found hfound
      rw [hsound.imports?_eq hsource hfound]
      dsimp only
      exact ⟨holds_afterImports hsource missing, hsound⟩
    · exact ⟨.keepImports rfl missing, hsound⟩
  | @keepImports found right missing =>
    simp only [Stage.advance, right]
    exact ⟨holds_afterImports hsource missing, hsound.insertImports hsource⟩
  | @keepDefinition key right =>
    simp only [Stage.advance, right]
    exact ⟨.returned rfl, hsound.insertDefinition hsource handler⟩
  | returned right => exact ⟨.returned right, hsound⟩

/-! ## How long calls take -/

/-- The accesses that are left at most, if the source file has so many imports. -/
def Stage.left (imports : Nat) : Stage → Nat
  | findDefinition => 2 * imports + 6
  | findFacts _ none => 2 * imports + 5
  | keepFacts _ _ none => 2 * imports + 4
  | findImports => 2 * imports + 3
  | keepImports found => 2 * found.length + 2
  | findFacts _ (some rest) => 2 * rest.length + 3
  | keepFacts _ _ (some rest) => 2 * rest.length + 2
  | keepDefinition _ => 1
  | returned _ => 0

theorem left_search (imports : Nat) : ∀ paths : List String,
    (Stage.search paths).left imports = 2 * paths.length + 1
  | [] => rfl
  | _ :: _ => rfl

theorem left_afterFacts (imports : Nat) (root handler path : String) (facts : Option Facts)
    (rest : Option (List String)) :
    (Stage.afterFacts root handler path facts rest).left imports + 1 ≤
      (Stage.keepFacts path facts rest).left imports := by
  unfold Stage.afterFacts
  cases rest with
  | none =>
    split
    · show 1 + 1 ≤ 2 * imports + 4
      omega
    · exact Nat.le_refl _
  | some paths =>
    split
    · show 1 + 1 ≤ 2 * paths.length + 2
      omega
    · exact Nat.le_of_eq (congrArg (· + 1) (left_search imports paths))

theorem left_afterImports (imports : Nat) (source : String) (found : List String) :
    (Stage.afterImports source found).left imports ≤ 2 * found.length + 1 := by
  unfold Stage.afterImports
  rw [left_search]
  have := List.length_filter_le (fun other => components other != components source) found
  omega

theorem left_keepFacts (imports : Nat) (path : String) (facts : Option Facts)
    (rest : Option (List String)) :
    (Stage.findFacts path rest).left imports = (Stage.keepFacts path facts rest).left imports + 1 := by
  cases rest with
  | none => rfl
  | some paths => rfl

/-- Each access brings a call closer to its end. -/
theorem advance_left (hsound : Sound project files memory) (hsource : IsNormal source)
    {imports : Nat}
    (himports : (reachable project.disk (searchSettings project.root) source).length = imports)
    (stage : Stage) :
    (stage.advance project source handler memory).1.left imports ≤ stage.left imports - 1 := by
  cases stage with
  | findDefinition =>
    simp only [Stage.advance]
    split
    · exact Nat.zero_le _
    · exact Nat.le_refl _
  | findFacts path rest =>
    simp only [Stage.advance]
    split
    · rename_i facts _
      rw [left_keepFacts imports path facts rest]
      exact Nat.le_of_succ_le (left_afterFacts imports project.root handler path facts rest)
    · rw [left_keepFacts imports path
        (factsOnDisk? project.disk project.ignoredGlobals path) rest]
      exact Nat.le_refl _
  | keepFacts path facts rest =>
    exact Nat.le_sub_one_of_lt (left_afterFacts imports project.root handler path facts rest)
  | findImports =>
    simp only [Stage.advance]
    split
    · rename_i found hfound
      have h := left_afterImports imports source found
      rw [show found.length = imports from hsound.imports?_eq hsource hfound ▸ himports] at h
      exact Nat.le_succ_of_le h
    · simp only [Stage.left, himports]
      omega
  | keepImports found => exact left_afterImports imports source found
  | keepDefinition key => exact Nat.le_refl 0
  | returned key => exact Nat.le_refl 0

/-! ## Runs -/

variable {audit : Audit}

/-- A call on its way to the key of its listener. -/
structure Call.Right (audit : Audit) (call : Call) : Prop where
  known : call.origin.isKnown = true → call.stage.Holds (projectOf audit) audit.files
    (sourceFile audit.root call.origin) call.listener.definition
  unknown : call.origin.isKnown = false → call.stage = .returned none

theorem Call.right_start (audit : Audit) (query : Script.Listener × SourceMap.Origin) :
    (Call.start query).Right audit where
  known hknown := by
    unfold Call.start at hknown ⊢
    rw [if_pos hknown]
    exact .findDefinition
  unknown hunknown := by
    unfold Call.start at hunknown ⊢
    rw [if_neg (Bool.not_eq_true _ ▸ hunknown)]

theorem Call.Right.key_eq {call : Call} (h : call.Right audit) {key : Option String}
    (hreturned : call.stage = .returned key) : key = keyOf? audit call.listener call.origin := by
  unfold keyOf?
  cases hknown : call.origin.isKnown with
  | true =>
    have hholds := h.known hknown
    rw [hreturned] at hholds
    rw [if_neg ((isKnown_iff _).1 hknown)]
    cases hholds with
    | returned right => exact right
  | false =>
    have hnone := h.unknown hknown
    rw [hreturned] at hnone
    rw [if_pos (not_not.1 fun hs => by simp [(isKnown_iff call.origin).2 hs] at hknown)]
    exact Stage.returned.inj hnone

theorem Call.Right.advance {call : Call} (h : call.Right audit)
    (hsound : Sound (projectOf audit) audit.files memory) :
    (call.advance audit memory).1.Right audit ∧
      Sound (projectOf audit) audit.files (call.advance audit memory).2 := by
  unfold Call.advance
  cases hknown : call.origin.isKnown with
  | true =>
    obtain ⟨hholds, hsound'⟩ := advance_inv hsound (sourceFile_isNormal audit.root call.origin)
      (h.known hknown)
    exact ⟨⟨fun _ => hholds, fun hunknown => by simp [hknown] at hunknown⟩, hsound'⟩
  | false =>
    rw [h.unknown hknown]
    exact ⟨⟨fun hk => by simp [hknown] at hk, fun _ => rfl⟩, hsound⟩

/-- The accesses after which a call has returned. -/
def Call.limit (audit : Audit) (origin : SourceMap.Origin) : Nat :=
  2 * (reachable audit.disk (searchSettings audit.root) (sourceFile audit.root origin)).length + 6

/-- The accesses that are left to a call. -/
def Call.left (audit : Audit) (call : Call) : Nat :=
  call.stage.left
    (reachable audit.disk (searchSettings audit.root) (sourceFile audit.root call.origin)).length

theorem Call.left_start (audit : Audit) (query : Script.Listener × SourceMap.Origin) :
    (Call.start query).left audit ≤ Call.limit audit query.2 := by
  unfold Call.left Call.start Call.limit
  split
  · exact Nat.le_refl _
  · exact Nat.zero_le _

theorem Call.left_advance (call : Call) (hsound : Sound (projectOf audit) audit.files memory) :
    (call.advance audit memory).1.left audit ≤ call.left audit - 1 :=
  advance_left hsound (sourceFile_isNormal audit.root call.origin) rfl call.stage

theorem Call.returned_of_left (audit : Audit) {call : Call} (h : call.left audit = 0) :
    ∃ key, call.stage = .returned key := by
  unfold Call.left at h
  cases hstage : call.stage with
  | returned key => exact ⟨key, rfl⟩
  | findFacts path rest => cases rest <;> simp [hstage, Stage.left] at h
  | keepFacts path facts rest => cases rest <;> simp [hstage, Stage.left] at h
  | _ => simp [hstage, Stage.left] at h

namespace Lookups

structure Inv (audit : Audit) (queries : List (Script.Listener × SourceMap.Origin))
    (lookups : Lookups) : Prop where
  sound : Sound (projectOf audit) audit.files lookups.memory
  right : ∀ call ∈ lookups.calls, call.Right audit
  queries : (lookups.calls.map fun call => (call.listener, call.origin)) = queries

variable {queries : List (Script.Listener × SourceMap.Origin)} {lookups : Lookups}

theorem start_inv (audit : Audit) (queries : List (Script.Listener × SourceMap.Origin)) :
    Inv audit queries (start audit queries) where
  sound := sound_ofFiles (projectOf audit) audit.files
  right call hcall := by
    obtain ⟨query, -, rfl⟩ := List.mem_map.1 hcall
    exact Call.right_start audit query
  queries := by
    rw [start, List.map_map]
    exact List.map_id queries

/-- A turn changes the call whose turn it is. -/
theorem getElem?_step (audit : Audit) (lookups : Lookups) (turn index : Nat) :
    (lookups.step audit turn).calls[index]? =
      if turn = index then
        lookups.calls[index]?.map fun call => (call.advance audit lookups.memory).1
      else lookups.calls[index]? := by
  unfold step
  cases hcall : lookups.calls[turn]? with
  | none =>
    dsimp only
    split
    · rename_i hsame
      rw [← hsame, hcall]
      rfl
    · rfl
  | some call =>
    have hlt := (List.getElem?_eq_some_iff.1 hcall).1
    simp only [List.getElem?_set, hlt, if_true]
    split
    · rename_i hsame
      rw [← hsame, hcall]
      rfl
    · rfl

theorem step_inv (h : Inv audit queries lookups) (turn : Nat) :
    Inv audit queries (lookups.step audit turn) := by
  refine ⟨?_, ?_, ?_⟩
  · unfold step
    cases hcall : lookups.calls[turn]? with
    | none => exact h.sound
    | some call => exact ((h.right call (List.mem_of_getElem? hcall)).advance h.sound).2
  · intro call hcall
    obtain ⟨index, hindex⟩ := List.mem_iff_getElem?.1 hcall
    rw [getElem?_step] at hindex
    split at hindex
    · obtain ⟨before, hbefore, rfl⟩ := Option.map_eq_some_iff.1 hindex
      exact ((h.right before (List.mem_of_getElem? hbefore)).advance h.sound).1
    · exact h.right call (List.mem_of_getElem? hindex)
  · rw [← h.queries]
    refine List.ext_getElem? fun index => ?_
    rw [List.getElem?_map, List.getElem?_map, getElem?_step]
    split
    · rw [Option.map_map]
      rfl
    · rfl

theorem run_inv (schedule : List Nat) : ∀ {lookups : Lookups}, Inv audit queries lookups →
    Inv audit queries (lookups.run audit schedule) := by
  induction schedule with
  | nil => exact fun h => h
  | cons turn schedule ih => exact fun h => ih (step_inv h turn)

/-- Every turn of a call counts. -/
theorem run_left (schedule : List Nat) : ∀ {lookups : Lookups}, Inv audit queries lookups →
    ∀ {index : Nat} {call : Call}, (lookups.run audit schedule).calls[index]? = some call →
    ∃ first, lookups.calls[index]? = some first ∧ first.origin = call.origin ∧
      call.left audit ≤ first.left audit - schedule.count index := by
  induction schedule with
  | nil => exact fun _ _ call hcall => ⟨call, hcall, rfl, Nat.le_refl _⟩
  | cons turn schedule ih =>
    intro lookups h index call hcall
    obtain ⟨second, hsecond, horigin, hleft⟩ := ih (step_inv h turn) hcall
    rw [getElem?_step] at hsecond
    split at hsecond
    · rename_i hsame
      obtain ⟨first, hfirst, rfl⟩ := Option.map_eq_some_iff.1 hsecond
      refine ⟨first, hfirst, horigin, ?_⟩
      have hadvance := first.left_advance h.sound
      rw [hsame, List.count_cons_self]
      omega
    · rename_i hother
      refine ⟨second, hsecond, horigin, ?_⟩
      rwa [List.count_cons_of_ne hother]

end Lookups

/-- Lookups that interleave return what each returns alone, and what they leave in the memory is what
would be computed again. -/
theorem interleaved_lookups_transparent (audit : Audit)
    (queries : List (Script.Listener × SourceMap.Origin)) (schedule : List Nat) :
    let seed := Memory.ofFiles audit.root audit.files
    let lookups := (Lookups.start audit queries).run audit schedule
    Sound (projectOf audit) audit.files lookups.memory ∧
    (lookups.calls.map fun call => (call.listener, call.origin)) = queries ∧
    (∀ call ∈ lookups.calls, ∀ key, call.stage = .returned key →
      key = (resolveKey audit call.listener call.origin seed).1) ∧
    (∀ index call, lookups.calls[index]? = some call →
      Call.limit audit call.origin ≤ schedule.count index → ∃ key, call.stage = .returned key) ∧
    ∀ query memory, Reaches (projectOf audit) (sourceFile audit.root query.2) query.1.definition
      ((Call.start query).stage, memory) (.returned (resolveKey audit query.1 query.2 memory).1,
        (resolveKey audit query.1 query.2 memory).2) := by
  intro seed lookups
  have hstart := Lookups.start_inv audit queries
  have hinv : lookups.Inv audit queries := Lookups.run_inv schedule hstart
  refine ⟨hinv.sound, hinv.queries, ?_, ?_, reaches_resolveKey audit⟩
  · intro call hcall key hkey
    rw [(hinv.right call hcall).key_eq hkey]
    exact (resolveKey_eq hstart.sound call.listener call.origin).1.symm
  · intro index call hcall hcount
    obtain ⟨first, hfirst, horigin, hleft⟩ := Lookups.run_left schedule hstart hcall
    obtain ⟨query, -, rfl⟩ := List.mem_map.1 (List.mem_of_getElem? hfirst)
    have hlimit := Call.left_start audit query
    refine Call.returned_of_left audit ?_
    have : (Call.start query).origin = query.2 := rfl
    rw [← horigin, this] at hcount
    omega

end AssetAudit.Analysis.Listener
