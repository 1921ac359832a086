import AssetAudit.Proofs.DirectoryCover

/-!
# Keys that stay the same

Taking the normal form of a path twice changes nothing (`Path.normalize_normal`). So what is remembered
under a path in normal form is found again under the normal form of that path (`foundAgain_of_isNormal`).
The paths that become keys are of that kind: the places of surveyed scripts, the files that a walk
reaches, and the source files of listeners (`renewed_keys_found`).
-/
namespace AssetAudit.Analysis

open AssetAudit.Path (IsNormal)
open Dependency (Settings reachable)
open Memory (searchSettings)

/-- Whether each table of a memory gives back for the normal form of a path what it was given for the
path. -/
structure FoundAgain (file : String) : Prop where
  parsed : ∀ (memory : Memory) (facts : Option Script.Facts),
    (memory.insertParsed file facts).parsed? (Path.normalize file) = some facts
  imports : ∀ (memory : Memory) (files : List String),
    (memory.insertImports file files).imports? (Path.normalize file) = some files
  definition : ∀ (memory : Memory) (handler : String) (key : Option String),
    (memory.insertDefinition file handler key).definition? (Path.normalize file) handler = some key

theorem lookup_remember {κ ν : Type} [BEq κ] [LawfulBEq κ] (key : κ) (value : ν)
    (table : List (κ × ν)) : (remember key value table).lookup key = some value := by
  simp [remember]

theorem foundAgain_of_isNormal {file : String} (h : IsNormal file) : FoundAgain file where
  parsed memory facts := by
    rw [h]
    exact lookup_remember _ facts memory.parsed
  imports memory files := by
    rw [h]
    exact lookup_remember _ files memory.dependencies
  definition memory handler key := by
    rw [h]
    exact lookup_remember _ key memory.definitions

/-! ## Surveyed scripts -/

/-- A surveyed script is known at its place, unless a later one stands there. -/
theorem exists_surveyedFacts? (root : String) {files : List SurveyedFile} {file : SurveyedFile}
    (hfile : file ∈ files) {facts : Script.Facts} (hfacts : file.ownScript? = some facts) :
    ∃ found, surveyedFacts? root files (Path.normalize (Path.join root file.path)) = some found := by
  rw [← Option.isSome_iff_exists, surveyedFacts?, List.findSome?_isSome_iff]
  refine ⟨file, List.mem_reverse.2 hfile, ?_⟩
  rw [if_pos rfl, hfacts]
  rfl

/-- The memory of a survey has what the survey knows at a path in normal form. -/
theorem parsed?_ofFiles {root path : String} {files : List SurveyedFile} {facts : Script.Facts}
    (hpath : IsNormal path) (hfacts : surveyedFacts? root files path = some facts) :
    (Memory.ofFiles root files).parsed? path = some (some facts) := by
  let project : Project := ⟨⟨[], []⟩, root, []⟩
  have hsound : Sound project files (Memory.ofFiles root files) := sound_ofFiles project files
  cases hfound : (Memory.ofFiles root files).parsed? path with
  | none =>
    obtain ⟨value, hmem⟩ := hsound.surveyed path facts hpath hfacts
    exact absurd hmem (not_mem_of_lookup hfound value)
  | some value =>
    rw [hsound.parsed?_eq hpath hfound, factsOf?, hfacts, Option.some_or]

/-! ## Keys -/

/-- Taking the normal form twice changes nothing. A surveyed script is found in the memory of the survey
under the renewed normal form of its place. The files that a walk reaches, with the settings of a scan or
of a search for definitions, and the source files of listeners are found again under their normal form. -/
theorem renewed_keys_found :
    (∀ path, Path.normalize (Path.normalize path) = Path.normalize path) ∧
    (∀ (root : String) (files : List SurveyedFile), ∀ file ∈ files, ∀ facts,
      file.ownScript? = some facts → ∃ found,
        surveyedFacts? root files (Path.normalize (Path.join root file.path)) = some found ∧
        (Memory.ofFiles root files).parsed?
          (Path.normalize (Path.normalize (Path.join root file.path))) = some (some found)) ∧
    (∀ (disk : Disk) (root entry : String) (options : Options) (file : String),
      file ∈ reachable disk (.ofOptions root options) entry ∨
        file ∈ reachable disk (searchSettings root) entry → FoundAgain file) ∧
    (∀ (root : String) (origin : SourceMap.Origin), FoundAgain (Listener.sourceFile root origin)) := by
  refine ⟨Path.normalize_normal, ?_, ?_, ?_⟩
  · intro root files file hfile facts hfacts
    have hplace := Path.normalize_normal (Path.join root file.path)
    obtain ⟨found, hfound⟩ := exists_surveyedFacts? root hfile hfacts
    refine ⟨found, hfound, ?_⟩
    rw [hplace]
    exact parsed?_ofFiles hplace hfound
  · rintro disk root entry options file (h | h)
    · exact foundAgain_of_isNormal
        (Dependency.reachable_isNormal (Dependency.ofOptions_isNamePart root options) h)
    · exact foundAgain_of_isNormal
        (Dependency.reachable_isNormal (searchSettings_isNamePart root) h)
  · intro root origin
    exact foundAgain_of_isNormal (Listener.sourceFile_isNormal root origin)

theorem script_and_import_found_again :
    let script : SurveyedFile := ⟨⟨"src/.././c.js", "", none⟩, .script {} false⟩
    let disk : Disk := ⟨["app"],
      [(["app", "a.js"], .text "import './lib/../b';\n"), (["app", "b.js"], .text "")]⟩
    (∃ found, (Memory.ofFiles "/app" [script]).parsed?
      (Path.normalize (Path.normalize (Path.join "/app" script.path))) = some (some found)) ∧
    "/app/b.js" ∈ reachable disk (searchSettings "/app") "a.js" ∧ FoundAgain "/app/b.js" := by
  intro script disk
  have hreached : "/app/b.js" ∈ reachable disk (searchSettings "/app") "a.js" := by decide +kernel
  obtain ⟨-, hsurveyed, hwalk, -⟩ := renewed_keys_found
  obtain ⟨found, -, hfound⟩ := hsurveyed "/app" [script] script (List.mem_singleton_self _) {} rfl
  exact ⟨⟨found, hfound⟩, hreached, hwalk disk "/app" "a.js" {} _ (.inr hreached)⟩

end AssetAudit.Analysis
