import AssetAudit.Analysis.Listener
import AssetAudit.Proofs.Walk
import Mathlib.Data.List.Induction

/-!
# Definitions looked up without a memory

`definitionOf?` is the key of the declaration of a handler as a function of the surveyed files and the
disk. What is searched stands in normal form (`reachable_isNormal`), so the key under which something is
remembered stands for one path.

`Sound` says of a memory that every entry is what would be computed again, and that it holds the
surveyed scripts. The memory of a survey is sound (`sound_ofFiles`), every insertion of a computed
value keeps it so, and a lookup in a sound memory gives the computed value. So a listener is resolved to
`keyOf?` whatever was remembered before (`resolveKey_eq`, `resolveKeys_eq`).
-/
namespace AssetAudit

open AssetAudit.Path (components IsNormal IsNamePart)

/-! ## Files in normal form -/

namespace Dependency

theorem isNamePart_index {extension : String} (h : IsNamePart extension) :
    IsNamePart ("index" ++ extension) where
  no_slash := by
    rw [String.toList_append, List.mem_append, not_or]
    exact ⟨by decide, h.no_slash⟩
  not_dots := ⟨'i', by rw [String.toList_append]; exact List.mem_append_left _ (by decide), by decide⟩

theorem variants_isNormal {settings : Settings} {candidate path : String}
    (hext : ∀ extension ∈ settings.extensions, IsNamePart extension) (hc : IsNormal candidate)
    (h : path ∈ variants settings candidate) : IsNormal path := by
  unfold variants at h
  rcases List.mem_cons.1 h with rfl | h
  · exact hc
  · rcases List.mem_append.1 h with h | h
    · obtain ⟨extension, he, rfl⟩ := List.mem_map.1 h
      exact hc.append (hext extension he)
    · obtain ⟨extension, he, rfl⟩ := List.mem_map.1 h
      exact hc.join (isNamePart_index (hext extension he))

theorem reachable_isNormal {disk : Disk} {settings : Settings} {entry file : String}
    (hext : ∀ extension ∈ settings.extensions, IsNamePart extension)
    (h : file ∈ reachable disk settings entry) : IsNormal file := by
  obtain ⟨result, hwalk, hresult⟩ := walk_reachable disk settings entry
  rw [← hresult] at h
  obtain ⟨⟨file, depth⟩, hvisited, rfl⟩ := List.mem_map.1 h
  have hinv := hwalk.inv (walkInv_start disk settings _)
  obtain ⟨-, hchain⟩ := hinv.chain _ hvisited
  cases hchain with
  | here _ => exact Path.normalize_normal _
  | next _ edge _ =>
    obtain ⟨candidate, hc, hmem⟩ := edges_variant edge
    exact variants_isNormal hext hc hmem

end Dependency

namespace Analysis

open Dependency (reachable)
open Memory (searchSettings factsOnDisk?)

theorem searchSettings_isNamePart (root : String) :
    ∀ extension ∈ (searchSettings root).extensions, IsNamePart extension := by
  intro extension he
  simp only [searchSettings, List.mem_cons, List.not_mem_nil, or_false] at he
  rcases he with rfl | rfl | rfl | rfl
  · exact ⟨by decide, 'j', by decide, by decide⟩
  · exact ⟨by decide, 'j', by decide, by decide⟩
  · exact ⟨by decide, 't', by decide, by decide⟩
  · exact ⟨by decide, 't', by decide, by decide⟩

/-! ## The lookup -/

/-- The facts of the surveyed script at a path. Of two scripts at one path the later one counts. -/
def surveyedFacts? (root : String) (files : List SurveyedFile) (path : String) :
    Option Script.Facts :=
  files.reverse.findSome? fun file =>
    if Path.normalize (Path.join root file.path) = path then file.ownScript? else none

/-- The facts of the script at a path, from the survey or else from disk. -/
def factsOf? (project : Project) (files : List SurveyedFile) (path : String) : Option Script.Facts :=
  (surveyedFacts? project.root files path).or (factsOnDisk? project.disk project.ignoredGlobals path)

/-- The key of the first declaration of a handler in the scripts at some paths. -/
def declaredIn? (project : Project) (files : List SurveyedFile) (handler : String)
    (paths : List String) : Option String :=
  paths.findSome? fun path =>
    ((factsOf? project files path).bind (·.definition? handler)).map (definitionKey project.root path)

/-- The files that a file imports within the depth of the search, without itself. -/
def importsOf (project : Project) (path : String) : List String :=
  (reachable project.disk (searchSettings project.root) path).filter (· ≠ path)

/-- The key of the declaration of a handler that a file names. -/
def definitionOf? (project : Project) (files : List SurveyedFile) (path handler : String) :
    Option String :=
  declaredIn? project files handler (path :: importsOf project path)

/-! ## Tables -/

theorem mem_remember {κ ν : Type} [BEq κ] [LawfulBEq κ] {key : κ} {value : ν} {table : List (κ × ν)}
    {entry : κ × ν} :
    entry ∈ remember key value table ↔ entry = (key, value) ∨ entry ∈ table ∧ entry.1 ≠ key := by
  simp [remember]

theorem mem_of_lookup {κ ν : Type} [BEq κ] [LawfulBEq κ] {key : κ} {value : ν}
    {table : List (κ × ν)} (h : table.lookup key = some value) : (key, value) ∈ table := by
  obtain ⟨before, after, rfl, -⟩ := List.lookup_eq_some_iff.1 h
  simp

theorem not_mem_of_lookup {κ ν : Type} [BEq κ] [LawfulBEq κ] {key : κ} {table : List (κ × ν)}
    (h : table.lookup key = none) (value : ν) : (key, value) ∉ table := by
  intro hmem
  have := List.lookup_eq_none_iff.1 h _ hmem
  simp at this

/-! ## Sound memories -/

structure Sound (project : Project) (files : List SurveyedFile) (memory : Memory) : Prop where
  parsed : ∀ entry ∈ memory.parsed, ∃ path, IsNormal path ∧
    entry = (components path, factsOf? project files path)
  dependencies : ∀ entry ∈ memory.dependencies, ∃ path, IsNormal path ∧
    entry = (components path, reachable project.disk (searchSettings project.root) path)
  definitions : ∀ entry ∈ memory.definitions, ∃ path handler, IsNormal path ∧
    entry = ((components path, handler), definitionOf? project files path handler)
  /-- What the survey knows is never computed from the disk. -/
  surveyed : ∀ path facts, IsNormal path → surveyedFacts? project.root files path = some facts →
    ∃ value, (components path, value) ∈ memory.parsed

variable {project : Project} {files : List SurveyedFile} {memory : Memory} {path : String}

theorem Sound.parsed?_eq (h : Sound project files memory) (hpath : IsNormal path)
    {facts : Option Script.Facts} (hfound : memory.parsed? path = some facts) :
    facts = factsOf? project files path := by
  obtain ⟨other, hother, heq⟩ := h.parsed _ (mem_of_lookup hfound)
  obtain ⟨hc, hv⟩ := Prod.mk.inj heq
  rw [hv, hpath.eq_of_components hother hc]

theorem Sound.factsOf?_of_missing (h : Sound project files memory) (hpath : IsNormal path)
    (hmissing : memory.parsed? path = none) :
    factsOf? project files path = factsOnDisk? project.disk project.ignoredGlobals path := by
  unfold factsOf?
  cases hsurvey : surveyedFacts? project.root files path with
  | none => rfl
  | some facts =>
    obtain ⟨value, hmem⟩ := h.surveyed path facts hpath hsurvey
    exact absurd hmem (not_mem_of_lookup hmissing value)

theorem Sound.imports?_eq (h : Sound project files memory) (hpath : IsNormal path)
    {found : List String} (hfound : memory.imports? path = some found) :
    found = reachable project.disk (searchSettings project.root) path := by
  obtain ⟨other, hother, heq⟩ := h.dependencies _ (mem_of_lookup hfound)
  obtain ⟨hc, hv⟩ := Prod.mk.inj heq
  rw [hv, hpath.eq_of_components hother hc]

theorem Sound.definition?_eq (h : Sound project files memory) (hpath : IsNormal path)
    {handler : String} {key : Option String} (hfound : memory.definition? path handler = some key) :
    key = definitionOf? project files path handler := by
  obtain ⟨other, name, hother, heq⟩ := h.definitions _ (mem_of_lookup hfound)
  obtain ⟨hk, hv⟩ := Prod.mk.inj heq
  obtain ⟨hc, hname⟩ := Prod.mk.inj hk
  rw [hv, hname, hpath.eq_of_components hother hc]

theorem Sound.insertParsed (h : Sound project files memory) (hpath : IsNormal path) :
    Sound project files (memory.insertParsed path (factsOf? project files path)) where
  parsed entry he := by
    rcases mem_remember.1 he with rfl | ⟨he, -⟩
    · exact ⟨path, hpath, rfl⟩
    · exact h.parsed entry he
  dependencies := h.dependencies
  definitions := h.definitions
  surveyed other facts hother hfacts := by
    obtain ⟨value, hmem⟩ := h.surveyed other facts hother hfacts
    by_cases hsame : components other = components path
    · exact ⟨_, mem_remember.2 (Or.inl (by rw [hsame]))⟩
    · exact ⟨value, mem_remember.2 (Or.inr ⟨hmem, hsame⟩)⟩

theorem Sound.insertImports (h : Sound project files memory) (hpath : IsNormal path) :
    Sound project files (memory.insertImports path
      (reachable project.disk (searchSettings project.root) path)) where
  parsed := h.parsed
  dependencies entry he := by
    rcases mem_remember.1 he with rfl | ⟨he, -⟩
    · exact ⟨path, hpath, rfl⟩
    · exact h.dependencies entry he
  definitions := h.definitions
  surveyed := h.surveyed

theorem Sound.insertDefinition (h : Sound project files memory) (hpath : IsNormal path)
    (handler : String) :
    Sound project files (memory.insertDefinition path handler
      (definitionOf? project files path handler)) where
  parsed := h.parsed
  dependencies := h.dependencies
  definitions entry he := by
    rcases mem_remember.1 he with rfl | ⟨he, -⟩
    · exact ⟨path, handler, hpath, rfl⟩
    · exact h.definitions entry he
  surveyed := h.surveyed

/-! ## The memory of a survey -/

theorem surveyedFacts?_concat (root : String) (files : List SurveyedFile) (file : SurveyedFile)
    (path : String) :
    surveyedFacts? root (files ++ [file]) path =
      (if Path.normalize (Path.join root file.path) = path then file.ownScript? else none).or
        (surveyedFacts? root files path) := by
  unfold surveyedFacts?
  rw [List.reverse_append, List.reverse_singleton, List.singleton_append, List.findSome?_cons]
  split <;> rename_i heq <;> rw [heq] <;> rfl

theorem parsed_ofFiles_concat (root : String) (files : List SurveyedFile) (file : SurveyedFile) :
    (Memory.ofFiles root (files ++ [file])).parsed =
      match file.ownScript? with
      | some facts => remember (components (Path.normalize (Path.join root file.path))) (some facts)
          (Memory.ofFiles root files).parsed
      | none => (Memory.ofFiles root files).parsed := by
  unfold Memory.ofFiles
  rw [List.foldl_append]
  rfl

theorem mem_parsed_ofFiles (root : String) (files : List SurveyedFile)
    (entry : PathKey × Option Script.Facts) :
    entry ∈ (Memory.ofFiles root files).parsed ↔ ∃ path facts, IsNormal path ∧
      surveyedFacts? root files path = some facts ∧ entry = (components path, some facts) := by
  induction files using List.reverseRecOn with
  | nil => simp [Memory.ofFiles, surveyedFacts?]
  | append_singleton files file ih =>
    simp only [parsed_ofFiles_concat, surveyedFacts?_concat]
    cases hscript : file.ownScript? with
    | none => simpa using ih
    | some facts =>
      have hplace := Path.normalize_normal (Path.join root file.path)
      generalize Path.normalize (Path.join root file.path) = place at hplace
      simp only [mem_remember, ih]
      constructor
      · rintro (rfl | ⟨⟨path, facts', hpath, hfacts, rfl⟩, hne⟩)
        · exact ⟨place, facts, hplace, by simp, rfl⟩
        · refine ⟨path, facts', hpath, ?_, rfl⟩
          rw [if_neg (fun he => hne (by rw [he]))]
          exact hfacts
      · rintro ⟨path, facts', hpath, hfacts, rfl⟩
        by_cases hsame : place = path
        · rw [if_pos hsame, Option.some_or, Option.some.injEq] at hfacts
          exact Or.inl (by rw [hsame, hfacts])
        · rw [if_neg hsame, Option.none_or] at hfacts
          refine Or.inr ⟨⟨path, facts', hpath, hfacts, rfl⟩, fun hc => hsame ?_⟩
          exact (hpath.eq_of_components hplace hc).symm

theorem sound_ofFiles (project : Project) (files : List SurveyedFile) :
    Sound project files (Memory.ofFiles project.root files) where
  parsed entry he := by
    obtain ⟨path, facts, hpath, hfacts, rfl⟩ := (mem_parsed_ofFiles project.root files entry).1 he
    exact ⟨path, hpath, by rw [factsOf?, hfacts, Option.some_or]⟩
  dependencies entry he := by cases he
  definitions entry he := by cases he
  surveyed path facts hpath hfacts :=
    ⟨some facts, (mem_parsed_ofFiles project.root files _).2 ⟨path, facts, hpath, hfacts, rfl⟩⟩

/-! ## Lookups one after another -/

theorem Sound.facts?_eq (h : Sound project files memory) (hpath : IsNormal path) :
    (memory.facts? project.disk project.ignoredGlobals path).1 = factsOf? project files path ∧
      Sound project files (memory.facts? project.disk project.ignoredGlobals path).2 := by
  unfold Memory.facts?
  split
  · rename_i facts hfound
    exact ⟨h.parsed?_eq hpath hfound, h⟩
  · rename_i hmissing
    rw [← h.factsOf?_of_missing hpath hmissing]
    exact ⟨rfl, h.insertParsed hpath⟩

theorem Sound.dependenciesOf_eq (h : Sound project files memory) (hpath : IsNormal path) :
    (memory.dependenciesOf project.disk project.root path).1 =
        reachable project.disk (searchSettings project.root) path ∧
      Sound project files (memory.dependenciesOf project.disk project.root path).2 := by
  unfold Memory.dependenciesOf
  split
  · rename_i found hfound
    dsimp only
    exact ⟨h.imports?_eq hpath hfound, h⟩
  · dsimp only
    exact ⟨rfl, h.insertImports hpath⟩

theorem Sound.findIn_eq (handler : String) : ∀ (paths : List String) {memory : Memory},
    Sound project files memory → (∀ path ∈ paths, IsNormal path) →
    (findIn project handler paths memory).1 = declaredIn? project files handler paths ∧
      Sound project files (findIn project handler paths memory).2
  | [], _, h, _ => ⟨rfl, h⟩
  | path :: paths, memory, h, hpaths => by
    obtain ⟨hfacts, hsound⟩ := h.facts?_eq (hpaths path List.mem_cons_self)
    have ih := Sound.findIn_eq handler paths hsound fun other ho => hpaths other (List.mem_cons_of_mem _ ho)
    simp only [findIn, declaredIn?, List.findSome?_cons, hfacts]
    cases (factsOf? project files path).bind (·.definition? handler) with
    | some place => exact ⟨rfl, hsound⟩
    | none => exact ih

theorem isNormal_of_mem_reachable {other : String}
    (h : other ∈ reachable project.disk (searchSettings project.root) path) : IsNormal other :=
  Dependency.reachable_isNormal (searchSettings_isNamePart project.root) h

theorem isNormal_of_mem_importsOf {other : String} (h : other ∈ importsOf project path) :
    IsNormal other :=
  isNormal_of_mem_reachable (List.mem_filter.1 h).1

/-- Among normal forms the other files are those with another key. -/
theorem filter_reachable_eq (hpath : IsNormal path) :
    (reachable project.disk (searchSettings project.root) path).filter
        (fun other => components other != components path) = importsOf project path := by
  refine List.filter_congr fun other ho => ?_
  have hother := isNormal_of_mem_reachable ho
  by_cases hsame : other = path
  · simp [hsame]
  · have hc : components other ≠ components path := fun hc =>
      hsame (hother.eq_of_components hpath hc)
    simp [hsame, hc]

theorem declaredIn?_append (project : Project) (files : List SurveyedFile) (handler : String)
    (paths others : List String) :
    declaredIn? project files handler (paths ++ others) =
      (declaredIn? project files handler paths).or (declaredIn? project files handler others) :=
  List.findSome?_append

theorem definitionOf?_eq (project : Project) (files : List SurveyedFile) (path handler : String) :
    definitionOf? project files path handler =
      (declaredIn? project files handler [path]).or
        (declaredIn? project files handler (importsOf project path)) :=
  declaredIn?_append project files handler [path] _

theorem Sound.findDefinition_eq (h : Sound project files memory) (hpath : IsNormal path)
    (handler : String) :
    (findDefinition project path handler memory).1 = definitionOf? project files path handler ∧
      Sound project files (findDefinition project path handler memory).2 := by
  obtain ⟨hown, hsound⟩ := Sound.findIn_eq handler [path] h (by simpa using hpath)
  rw [definitionOf?_eq, ← hown]
  unfold findDefinition
  split
  · rename_i key memory' heq
    rw [heq] at hsound ⊢
    exact ⟨rfl, hsound⟩
  · rename_i memory' heq
    rw [heq] at hsound ⊢
    obtain ⟨himports, hsound'⟩ := hsound.dependenciesOf_eq hpath
    simp only [himports, filter_reachable_eq hpath, Option.none_or]
    exact Sound.findIn_eq handler _ hsound' fun other => isNormal_of_mem_importsOf

namespace Listener

/-- The files of an audit as the place where definitions are looked up. -/
def projectOf (audit : Audit) : Project := ⟨audit.disk, audit.root, audit.options.ignoredGlobals⟩

/-- The key of the declaration of a listener's handler, without a memory. -/
def keyOf? (audit : Audit) (listener : Script.Listener) (origin : SourceMap.Origin) :
    Option String :=
  if origin.source = "" ∨ origin.source = SourceMap.unknownSource then none
  else definitionOf? (projectOf audit) audit.files (sourceFile audit.root origin) listener.definition

theorem isKnown_iff (origin : SourceMap.Origin) :
    origin.isKnown = true ↔ ¬ (origin.source = "" ∨ origin.source = SourceMap.unknownSource) := by
  simp [SourceMap.Origin.isKnown, SourceMap.isKnown]

theorem sourceFile_isNormal (root : String) (origin : SourceMap.Origin) :
    IsNormal (sourceFile root origin) := Path.normalize_normal _

/-- What is remembered changes no key. -/
theorem resolveKey_eq {audit : Audit} {memory : Memory}
    (h : Sound (projectOf audit) audit.files memory) (listener : Script.Listener)
    (origin : SourceMap.Origin) :
    (resolveKey audit listener origin memory).1 = keyOf? audit listener origin ∧
      Sound (projectOf audit) audit.files (resolveKey audit listener origin memory).2 := by
  have hsource := sourceFile_isNormal audit.root origin
  unfold resolveKey keyOf?
  by_cases hknown : origin.isKnown = true
  · rw [if_pos hknown, if_neg ((isKnown_iff origin).1 hknown)]
    simp only
    split
    · rename_i key hfound
      exact ⟨h.definition?_eq hsource hfound, h⟩
    · obtain ⟨hkey, hsound⟩ := h.findDefinition_eq hsource listener.definition
      refine ⟨hkey, ?_⟩
      have := hsound.insertDefinition hsource listener.definition
      rwa [← hkey] at this
  · rw [if_neg hknown, if_pos (not_not.1 fun hs => hknown ((isKnown_iff origin).2 hs))]
    exact ⟨rfl, h⟩

theorem resolveKeys_eq {audit : Audit} : ∀ (queries : List (Script.Listener × SourceMap.Origin))
    {memory : Memory}, Sound (projectOf audit) audit.files memory →
    (resolveKeys audit queries memory).1 = queries.map (fun query => keyOf? audit query.1 query.2) ∧
      Sound (projectOf audit) audit.files (resolveKeys audit queries memory).2
  | [], _, h => ⟨rfl, h⟩
  | (listener, origin) :: queries, memory, h => by
    obtain ⟨hkey, hsound⟩ := resolveKey_eq h listener origin
    obtain ⟨hkeys, hsound'⟩ := resolveKeys_eq queries hsound
    simp only [resolveKeys, List.map_cons, hkey, hkeys]
    exact ⟨trivial, hsound'⟩

end Listener
end Analysis
end AssetAudit
