import AssetAudit.Proofs.UnparsedAsset

/-!
# Memories that start with the survey

The memory of a scan starts with the facts of the surveyed scripts. Where the disk holds these scripts
with the surveyed texts, each of them is what the disk gives (`factsOnDisk?_of_surveyFile`): a script
has the same dialect at its place as under its name, and the same settings read its text.

So that memory is sound with no survey at all (`sound_seeded`), just as the empty one is. Two memories
of that kind give the same answers, and the issues about listeners are the same with both
(`seeding_keeps_issues`).
-/
namespace AssetAudit

/-! ## Surveyed scripts on disk -/

theorem SurveyedFile.isScript_of_ownScript? {file : SurveyedFile} {facts : Script.Facts}
    (h : file.ownScript? = some facts) : file.isScript = true := by
  unfold ownScript? at h
  unfold isScript
  cases hf : file.findings <;> simp [hf] at h ⊢

/-- The facts of a surveyed script are those of its text, in the dialect of its extension. -/
theorem Survey.exists_extract {options : Options} {filter : IgnoreFilter} {asset : Asset}
    {facts : Script.Facts} (h : (surveyFile options filter asset).ownScript? = some facts) :
    ∃ dialect, Script.Dialect.ofExtension? asset.extension = some dialect ∧
      Script.extract ⟨dialect, false, options.ignoredGlobals⟩ asset.content = .ok facts := by
  unfold surveyFile at h
  split at h
  · cases h
  · unfold examine at h
    simp only at h
    split at h
    · cases h
    · split at h
      · cases h
      · split at h
        · cases h
        · rename_i dialect hdialect
          split at h
          · rename_i extracted hextracted
            cases h
            exact ⟨dialect, hdialect, hextracted⟩
          · cases h

namespace Analysis

open Memory (factsOnDisk?)

variable {disk : Disk} {root : String} {options : Options} {filter : IgnoreFilter}

theorem factsOnDisk?_of_surveyFile {asset : Asset} {facts : Script.Facts}
    (h : (Survey.surveyFile options filter asset).ownScript? = some facts)
    (hdisk : disk.read? (Path.normalize (Path.join root asset.name)) = some asset.content) :
    factsOnDisk? disk options.ignoredGlobals (Path.normalize (Path.join root asset.name)) =
      some facts := by
  obtain ⟨dialect, hdialect, hextract⟩ := Survey.exists_extract h
  have hext : Path.extension asset.name ≠ "" := by
    intro hempty
    rw [Asset.extension, hempty] at hdialect
    cases hdialect
  have hplace : Script.Dialect.ofExtension?
      (Path.extension (Path.normalize (Path.join root asset.name))) = some dialect := by
    rw [Path.extension_normalize_join root hext]
    exact hdialect
  unfold factsOnDisk?
  simp only [hplace, hdisk, hextract, Option.bind_eq_bind, Option.bind_some]
  rfl

/-- What is known of a path from a survey is what the disk gives there. -/
theorem factsOnDisk?_of_surveyedFacts? {assets : List Asset} {path : String} {facts : Script.Facts}
    (hdisk : ∀ file ∈ assets.map (Survey.surveyFile options filter), file.isScript = true →
      disk.read? (Path.normalize (Path.join root file.path)) = some file.asset.content)
    (h : surveyedFacts? root (assets.map (Survey.surveyFile options filter)) path = some facts) :
    factsOnDisk? disk options.ignoredGlobals path = some facts := by
  obtain ⟨file, hfile, hfacts⟩ := List.exists_of_findSome?_eq_some h
  split at hfacts
  · rename_i hplace
    have hmem := List.mem_reverse.1 hfile
    have hread := hdisk file hmem (SurveyedFile.isScript_of_ownScript? hfacts)
    obtain ⟨asset, -, rfl⟩ := List.mem_map.1 hmem
    rw [SurveyedFile.path, Survey.asset_surveyFile] at hread hplace
    rw [← hplace]
    exact factsOnDisk?_of_surveyFile hfacts hread
  · cases hfacts

/-! ## Memories that hold what the disk gives -/

/-- A memory that starts with a survey is sound without it, if the disk holds the surveyed scripts. -/
theorem sound_seeded {assets : List Asset}
    (hdisk : ∀ file ∈ assets.map (Survey.surveyFile options filter), file.isScript = true →
      disk.read? (Path.normalize (Path.join root file.path)) = some file.asset.content) :
    Sound ⟨disk, root, options.ignoredGlobals⟩ []
      (Memory.ofFiles root (assets.map (Survey.surveyFile options filter))) where
  parsed entry he := by
    obtain ⟨path, facts, hpath, hfacts, rfl⟩ := (mem_parsed_ofFiles root _ entry).1 he
    refine ⟨path, hpath, ?_⟩
    have honDisk := factsOnDisk?_of_surveyedFacts? hdisk hfacts
    rw [factsOf?, honDisk]
    rfl
  dependencies entry he := by cases he
  definitions entry he := by cases he
  surveyed path facts hpath hfacts := by cases hfacts

namespace Listener

variable {audit : Audit} {memory other : Memory}

/-- A memory that is sound without the survey gives the keys of an audit without files. -/
theorem resolveKeys_onDisk (h : Sound (projectOf audit) [] memory)
    (queries : List (Script.Listener × SourceMap.Origin)) :
    (resolveKeys audit queries memory).1 =
        queries.map (fun query => keyOf? (audit.withFiles []) query.1 query.2) ∧
      Sound (projectOf audit) [] (resolveKeys audit queries memory).2 := by
  rw [← resolveKeys_withFiles audit []]
  exact resolveKeys_eq queries h

theorem unremoved_onDisk (h : Sound (projectOf audit) [] memory)
    (hother : Sound (projectOf audit) [] other) (candidates : List Candidate) :
    (unremoved audit candidates memory).1 = (unremoved audit candidates other).1 := by
  obtain ⟨hremoved, hsound⟩ := resolveKeys_onDisk h (removals audit)
  obtain ⟨hremoved', hsound'⟩ := resolveKeys_onDisk hother (removals audit)
  obtain ⟨hkeys, -⟩ := resolveKeys_onDisk hsound (candidates.map fun c => (c.listener, c.origin))
  obtain ⟨hkeys', -⟩ := resolveKeys_onDisk hsound' (candidates.map fun c => (c.listener, c.origin))
  unfold unremoved
  simp only
  split
  · rfl
  · simp only [hremoved, hremoved', hkeys, hkeys']

theorem issues_onDisk (h : Sound (projectOf audit) [] memory)
    (hother : Sound (projectOf audit) [] other) :
    (issues audit memory).1 = (issues audit other).1 := by
  rw [fst_issues, fst_issues, unremoved_onDisk h hother]

/-- The issues about listeners are the same with the memory of the survey as with an empty one, if the
disk holds the surveyed scripts. -/
theorem seeding_keeps_issues (disk : Disk) (root : String) (options : Options)
    (filter surveyFilter : IgnoreFilter) (assets : List Asset) :
    let files := assets.map (Survey.surveyFile options surveyFilter)
    let audit : Audit := ⟨disk, root, options, filter, files⟩
    (∀ file ∈ files, file.isScript = true →
      disk.read? (Path.normalize (Path.join root file.path)) = some file.asset.content) →
    (issues audit (.ofFiles root files)).1 = (issues audit {}).1 := by
  intro files audit hdisk
  have hempty : Sound (projectOf audit) [] {} := sound_ofFiles (projectOf audit) []
  exact issues_onDisk (sound_seeded hdisk) hempty

theorem shared_handler_seeded :
    let assets : List Asset := [
      ⟨"a.js", "import \x7b f \x7d from './c';\nwindow.addEventListener('click', f);\n", none⟩,
      ⟨"b.js", "import \x7b f \x7d from './c';\nwindow.removeEventListener('click', f);\n", none⟩,
      ⟨"c.js", "export function f() \x7b\x7d\n", none⟩]
    let disk : Disk := ⟨["app"], assets.map fun asset => (["app", asset.name], .text asset.content)⟩
    let filter := IgnoreFilter.ofEntries "/app" []
    let files := assets.map (Survey.surveyFile { compile := false } filter)
    let audit : Audit := ⟨disk, "/app", { compile := false }, filter, files⟩
    (∀ file ∈ files, file.isScript = true →
      disk.read? (Path.normalize (Path.join "/app" file.path)) = some file.asset.content) ∧
    (issues audit (.ofFiles "/app" files)).1 = (issues audit {}).1 := by
  intro assets disk filter files audit
  have hdisk : ∀ file ∈ files, file.isScript = true →
      disk.read? (Path.normalize (Path.join "/app" file.path)) = some file.asset.content := by
    decide +kernel
  exact ⟨hdisk, seeding_keeps_issues disk "/app" { compile := false } filter filter assets hdisk⟩

end Listener
end Analysis
end AssetAudit
