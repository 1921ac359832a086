import AssetAudit.Proofs.RuleSpelling
import AssetAudit.Report

/-!
# Sources of a project that has moved

A relative source and its absolute path below the root have the same names behind the root
(`stripBase?_join`), so the directory of unknown sources tells them apart nowhere. The directory of
installed packages is looked for in the whole text of a source, and there the path of the root counts too:
the two spellings fall into the same group exactly if the root does not bring that directory in
(`classify_join_iff`).
-/
namespace AssetAudit

namespace Path

/-- Behind the root there is left of a joined path what was joined. -/
theorem stripBase?_join {root path : String} (hroot : isAbsolute root = true)
    (hpath : isAbsolute path = false) :
    stripBase? root (join root path) = some ((segments path).filterMap component?) := by
  have hne : root ≠ "" := by
    rintro rfl
    cases hroot
  rw [stripBase?, components_join hne hpath]
  exact List.isPrefixOf?_eq_some_iff_append_eq.2 rfl

/-- A relative path is below no absolute one. -/
theorem stripBase?_relative {root path : String} (hroot : isAbsolute root = true)
    (hpath : isAbsolute path = false) : stripBase? root path = none := by
  rw [Option.eq_none_iff_forall_ne_some]
  intro rest hrest
  have happend := List.isPrefixOf?_eq_some_iff_append_eq.1 hrest
  have hmem : Component.root ∈ components path := by
    rw [← happend]
    exact List.mem_append_left _ ((isAbsolute_iff_mem root).1 hroot)
  rw [← isAbsolute_iff_mem, hpath] at hmem
  cases hmem

end Path

namespace SourceGroup

open AssetAudit.Path (isAbsolute join)

/-- The first name of a path stands in its segments. -/
theorem firstName?_components (path : String) :
    firstName? (Path.components path) = firstName? ((Path.segments path).filterMap Path.component?) := by
  have hlead : firstName? (Path.lead path) = none := by
    unfold Path.lead
    split
    · rfl
    · split <;> rfl
  unfold firstName? at hlead ⊢
  rw [Path.components_eq, List.findSome?_append, hlead, Option.none_or]

variable {root source unknownDir : String}

/-- The text of a joined path holds what the text of one of its sides holds. -/
theorem contains_join {needle : List Char} (hneedle : '/' ∉ needle) (hne : needle ≠ [])
    (hroot : isAbsolute root = true) (hsource : isAbsolute source = false) :
    Text.contains needle (join root source).toList =
      (Text.contains needle root.toList || Text.contains needle source.toList) := by
  obtain ⟨top, htop, hjoin⟩ := Path.exists_join_eq hroot
  have hsplit : (join root source).toList = top.toList ++ '/' :: source.toList := by
    rw [hjoin source hsource, String.toList_append, String.toList_append, List.append_assoc]
    rfl
  have hroot' : Text.contains needle root.toList = Text.contains needle top.toList := by
    rcases htop with rfl | rfl
    · rfl
    · rw [String.toList_append, show "/".toList = '/' :: [] from rfl, Text.contains_append_cons hneedle,
        Text.contains, List.isEmpty_eq_false_iff.2 hne, Bool.or_false]
  rw [hsplit, Text.contains_append_cons hneedle, hroot']

theorem join_ne_unknownSource (hroot : isAbsolute root = true) :
    join root source ≠ SourceMap.unknownSource := by
  intro heq
  have habsolute := Path.isAbsolute_join hroot source
  rw [heq] at habsolute
  cases habsolute

/-- The group of a source that no directory of installed packages decides. -/
def groupOutside (unknownDir source : String) : SourceGroup :=
  if !unknownDir.isEmpty && firstName? (Path.components source) == some unknownDir then .unknown
  else .source

theorem groupOutside_ne (unknownDir source : String) : groupOutside unknownDir source ≠ .nodeModules := by
  unfold groupOutside
  split <;> simp

theorem classify_relative (hroot : isAbsolute root = true) (hsource : isAbsolute source = false)
    (hknown : source ≠ SourceMap.unknownSource) :
    classify root unknownDir source =
      if Text.contains "node_modules".toList source.toList then .nodeModules
      else groupOutside unknownDir source := by
  rw [classify, if_neg (by simpa using hknown), Path.stripBase?_relative hroot hsource]
  rfl

theorem classify_join (hroot : isAbsolute root = true) (hsource : isAbsolute source = false) :
    classify root unknownDir (join root source) =
      if Text.contains "node_modules".toList root.toList ||
          Text.contains "node_modules".toList source.toList then .nodeModules
      else groupOutside unknownDir source := by
  rw [classify, if_neg (by simpa using join_ne_unknownSource hroot),
    contains_join (by decide) (by decide) hroot hsource, Path.stripBase?_join hroot hsource]
  simp only [Option.getD_some, groupOutside, firstName?_components]

/-- A relative source and its path below the root fall into the same group, unless the path of the root
names the directory of installed packages and the source itself does not. -/
theorem classify_join_iff (hroot : isAbsolute root = true) (hsource : isAbsolute source = false)
    (hknown : source ≠ SourceMap.unknownSource) :
    classify root unknownDir (join root source) = classify root unknownDir source ↔
      (Text.contains "node_modules".toList root.toList = true →
        Text.contains "node_modules".toList source.toList = true) := by
  rw [classify_join hroot hsource, classify_relative hroot hsource hknown]
  cases Text.contains "node_modules".toList source.toList with
  | true => simp
  | false =>
    cases Text.contains "node_modules".toList root.toList with
    | true => simpa using (groupOutside_ne unknownDir source).symm
    | false => simp

theorem moved_sources_keep_group :
    let packages := "/srv/node_modules/app"
    (isAbsolute "/srv/app/" = true ∧ isAbsolute ".//dist/../a.js" = false ∧
      classify "/srv/app/" "dist" ".//dist/../a.js" = .unknown ∧
      classify "/srv/app/" "dist" (join "/srv/app/" ".//dist/../a.js") =
        classify "/srv/app/" "dist" ".//dist/../a.js") ∧
      isAbsolute packages = true ∧ isAbsolute "./node_modules/b/a.js" = false ∧
        classify packages "dist" (join packages "./node_modules/b/a.js") =
          classify packages "dist" "./node_modules/b/a.js" := by
  intro packages
  refine ⟨⟨by decide, by decide, by decide +kernel, ?_⟩, by decide, by decide, ?_⟩
  · exact (classify_join_iff (by decide) (by decide) (by decide)).2 (by decide +kernel)
  · exact (classify_join_iff (by decide) (by decide) (by decide)).2 (by decide +kernel)

/-- A project among installed packages has all its sources there if they are given by their full paths. -/
theorem root_among_packages_decides :
    let root := "/srv/node_modules/app"
    isAbsolute root = true ∧ isAbsolute "src/a.ts" = false ∧ "src/a.ts" ≠ SourceMap.unknownSource ∧
      join root "src/a.ts" = "/srv/node_modules/app/src/a.ts" ∧
      classify root "dist" (join root "src/a.ts") = .nodeModules ∧
      classify root "dist" "src/a.ts" = .source := by
  decide +kernel

end SourceGroup
end AssetAudit
