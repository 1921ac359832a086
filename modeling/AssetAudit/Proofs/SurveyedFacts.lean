import AssetAudit.Proofs.SheetFacts
import AssetAudit.Survey

/-!
# The facts of surveyed files

What a survey knows of the scripts and of the style sheets in a file is gathered from single scripts and sheets
(`Script.Gathered`, `Style.Gathered`): a page merges the facts of its parts, and parts that cannot be read have
none. So what is true of single scripts, and kept when facts are merged, is true of every file of a survey
(`gathered_script?`, `gathered_style?`).
-/
namespace AssetAudit

namespace Script

/-- Facts that are gathered from scripts, merged in any way. -/
inductive Gathered : Facts → Prop
  | empty : Gathered Facts.empty
  | script {reading : Reading} {code : String} {facts : Facts} (h : extract reading code = .ok facts) :
    Gathered facts
  | merge {a b : Facts} : Gathered a → Gathered b → Gathered (a.merge b)

/-- The script facts of a page are gathered from its scripts. -/
theorem gathered_page (ignoredGlobals : List String) (exclude : Bool) (code : String) :
    Gathered (Page.extract ignoredGlobals exclude code).script := by
  refine List.foldlRecOn _ _ .empty ?_
  intro merged hmerged facts hfacts
  refine hmerged.merge ?_
  obtain ⟨script, -, rfl⟩ := List.mem_map.1 hfacts
  unfold Page.scriptFacts
  split
  · exact .empty
  · split
    · rename_i hfound
      exact .script hfound
    · exact .empty

end Script

/-! ## Surveys -/

variable {options : Options} {filter : IgnoreFilter} {assets : AssetMap} {file : SurveyedFile}

/-- A file of a survey is left out, or it is what its asset shows. -/
theorem exists_examine (h : file ∈ (Survey.ofAssets options filter assets).files) :
    ∃ asset, file = ⟨asset, .disabled (FileKind.ofExtension asset.extension)⟩ ∨
      file = ⟨asset, Survey.examine options asset⟩ := by
  obtain ⟨asset, -, rfl⟩ := List.mem_map.1 h
  refine ⟨asset, ?_⟩
  unfold Survey.surveyFile
  split
  · exact .inl rfl
  · exact .inr rfl

theorem gathered_script? (hfile : file ∈ (Survey.ofAssets options filter assets).files)
    {facts : Script.Facts} (h : file.script? = some facts) : Script.Gathered facts := by
  obtain ⟨asset, rfl | rfl⟩ := exists_examine hfile
  · cases h
  · unfold Survey.examine at h
    simp only at h
    split at h
    · rw [← Option.some.inj h]
      exact Script.gathered_page _ _ _
    · split at h
      · cases h
      · split at h
        · cases h
        · split at h
          · rename_i found hfound
            rw [← Option.some.inj h]
            exact .script hfound
          · cases h

theorem gathered_style? (hfile : file ∈ (Survey.ofAssets options filter assets).files)
    {facts : Style.Facts} (h : file.style? = some facts) :
    Style.Gathered options.rules.excludeGlobalSelectorAfterClass facts := by
  obtain ⟨asset, rfl | rfl⟩ := exists_examine hfile
  · cases h
  · unfold Survey.examine at h
    simp only at h
    split at h
    · rw [← Option.some.inj h]
      exact Style.gathered_page _ _ _
    · split at h
      · rw [← Option.some.inj h]
        exact .sheet _
      · split at h
        · cases h
        · split at h <;> cases h

end AssetAudit
