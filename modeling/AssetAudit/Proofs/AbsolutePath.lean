import AssetAudit.Dependency.Collect
import AssetAudit.Proofs.AssetOrder
import AssetAudit.Proofs.Walk

/-!
# Absolute paths

From an absolute base every path that is made on the way to the assets of a scan is absolute: the normal
form of an absolute path (`isAbsolute_normalize`), what is joined to one (`isAbsolute_join`), the
directory of a file (`isAbsolute_directory`), where an edge leads (`isAbsolute_of_mem_edges`), every file
that is reached or found in a directory. So the names of the collected assets start with a slash
(`head?_name_of_mem_collect`).
-/
namespace AssetAudit

/-! ## Paths -/

namespace Path

theorem root_mem_resolveStep {kept : List Component} {component : Component}
    (h : .root ∈ kept ∨ component = .root) : .root ∈ resolveStep kept component := by
  cases component with
  | root => exact List.mem_cons_self
  | current => exact (by simpa using h : Component.root ∈ kept)
  | name text => exact List.mem_cons_of_mem _ (by simpa using h)
  | parent =>
    have hkept : Component.root ∈ kept := by simpa using h
    match kept, hkept with
    | .root :: rest, _ => exact List.mem_cons_of_mem _ List.mem_cons_self
    | .current :: rest, hkept => simpa [resolveStep] using hkept
    | .parent :: rest, hkept => simpa [resolveStep] using hkept
    | .name text :: rest, hkept => simpa [resolveStep] using hkept

theorem root_mem_foldl_resolveStep : ∀ (components kept : List Component),
    .root ∈ kept ∨ .root ∈ components → .root ∈ components.foldl resolveStep kept
  | [], kept, h => by simpa using h
  | component :: rest, kept, h => by
    refine root_mem_foldl_resolveStep rest _ ?_
    rw [List.mem_cons] at h
    rcases h with h | h | h
    · exact .inl (root_mem_resolveStep (.inl h))
    · exact .inl (root_mem_resolveStep (.inr h.symm))
    · exact .inr h

theorem isAbsolute_normalize {path : String} (h : isAbsolute path = true) :
    isAbsolute (normalize path) = true := by
  rw [isAbsolute_iff_mem] at h
  rw [isAbsolute_iff_mem, components_normalize, resolve, List.mem_reverse]
  exact root_mem_foldl_resolveStep _ _ (.inr h)

theorem isAbsolute_append {path : String} (h : isAbsolute path = true) (text : String) :
    isAbsolute (path ++ text) = true := by
  unfold isAbsolute at h ⊢
  rw [beq_iff_eq] at h
  rw [String.toList_append, List.head?_append, h]
  rfl

theorem isAbsolute_join {base : String} (h : isAbsolute base = true) (path : String) :
    isAbsolute (join base path) = true := by
  unfold join
  split
  · rename_i hpath
    rw [Bool.or_eq_true] at hpath
    rcases hpath with hpath | hempty
    · exact hpath
    · rw [String.isEmpty_iff] at hempty
      rw [hempty] at h
      cases h
  · split
    · exact isAbsolute_append h path
    · rw [String.append_assoc]
      exact isAbsolute_append h _

/-- Behind the root of an absolute path no other component is the root. -/
theorem components_absolute {path : String} (h : isAbsolute path = true) :
    ∃ rest, components path = .root :: rest ∧ .root ∉ rest := by
  refine ⟨(segments path).filterMap component?, ?_, ?_⟩
  · rw [components_eq, lead, if_pos h]
    rfl
  · intro hmem
    obtain ⟨segment, -, hsegment⟩ := List.mem_filterMap.1 hmem
    exact (component?_ne hsegment).1 rfl

theorem isAbsolute_directory {path : String} (h : isAbsolute path = true)
    (htop : components path ≠ [.root]) : isAbsolute (directory path) = true := by
  obtain ⟨rest, hcomponents, hroot⟩ := components_absolute h
  have hne : rest ≠ [] := by
    rintro rfl
    exact htop hcomponents
  have hlast : (components path).getLast? = some (rest.getLast hne) := by
    rw [hcomponents, List.getLast?_cons, List.getLast?_eq_some_getLast hne]
    rfl
  have hother : rest.getLast hne ≠ .root := fun he => hroot (he ▸ List.getLast_mem hne)
  obtain ⟨text, hparent, htext⟩ := components_parent hlast hother
  rw [directory, hparent, Option.getD_some, isAbsolute_iff_mem, htext, hcomponents,
    List.dropLast_cons_of_ne_nil hne]
  exact List.mem_cons_self

theorem toList_forward {path : String} (h : path.toList.head? ≠ some '\\') :
    (forward path).toList = path.toList.map fun c => if c == '\\' then '/' else c := by
  have hplain : Text.after? "\\\\?\\".toList path.toList = none := by
    cases htext : path.toList with
    | nil => rfl
    | cons c text =>
      rw [htext, List.head?_cons, ne_eq, Option.some.injEq] at h
      simp [Text.after?, Ne.symm h]
  simp only [forward, hplain, Option.getD_none, String.toList_ofList]

/-- Without backslashes there is nothing to turn. -/
theorem map_turned_eq_self {text : List Char} (h : '\\' ∉ text) :
    text.map (fun c => if c == '\\' then '/' else c) = text := by
  refine (List.map_congr_left fun c hc => ?_).trans (List.map_id _)
  have hne : c ≠ '\\' := fun he => h (he ▸ hc)
  simp [hne]

theorem forward_eq_self {path : String} (h : '\\' ∉ path.toList) : forward path = path := by
  have hhead : path.toList.head? ≠ some '\\' := fun he => h (List.mem_of_mem_head? he)
  rw [← String.toList_inj, toList_forward hhead, map_turned_eq_self h]

theorem head?_forward {path : String} (h : isAbsolute path = true) :
    (forward path).toList.head? = some '/' := by
  rw [isAbsolute, beq_iff_eq] at h
  rw [toList_forward (by rw [h]; decide), List.head?_map, h]
  rfl

end Path

/-- A file that can be read is not the top of the disk. -/
theorem Disk.components_ne_root {disk : Disk} {path content : String}
    (h : disk.read? path = some content) : Path.components path ≠ [.root] := by
  intro hroot
  have habsolute : Path.isAbsolute path = true := by
    rw [Path.isAbsolute_iff_mem, hroot]
    exact List.mem_cons_self
  obtain ⟨names, hlocate, hnode, -⟩ := find?_eq_some_iff.1 (find?_of_read? h)
  have hway := follows_of_locate? hlocate
  have hsolid := follows_solid_of_locate? hlocate
  rw [origin, if_pos habsolute] at hway hsolid
  -- no segment of the path says anything, so the way ends where it starts
  rw [solid_segments, hroot] at hsolid
  cases hsolid
  obtain ⟨first, rest, hsegments⟩ := List.exists_cons_of_ne_nil (Path.segments_ne_nil path)
  rw [hsegments] at hway
  have htop := hway.isDirectoryAt_start
  rw [isDirectoryAt, hnode, beq_iff_eq] at htop
  cases htop

theorem mem_all_ofList {assets : List Asset} {asset : Asset} :
    asset ∈ (AssetMap.ofList assets).all ↔ asset ∈ assets := by
  simp only [AssetMap.all, AssetMap.ofList, List.mem_append, List.mem_filter, beq_iff_eq]
  cases FileKind.ofExtension asset.extension <;> simp

/-! ## Files that are reached -/

namespace Dependency

variable {disk : Disk} {settings : Settings}

theorem isAbsolute_of_existing? {directory path : String} {address : List Char}
    (hdirectory : Path.isAbsolute directory = true)
    (h : existing? disk directory address = some path) : Path.isAbsolute path = true := by
  unfold existing? at h
  split at h
  · cases h
  · rw [Option.ite_none_right_eq_some, Option.some.injEq] at h
    rw [← h.2]
    exact Path.isAbsolute_normalize (Path.isAbsolute_join hdirectory _)

theorem isAbsolute_of_candidate? {directory specifier candidate : String}
    (hbase : Path.isAbsolute settings.base = true) (hdirectory : Path.isAbsolute directory = true)
    (h : candidate? settings directory specifier = some candidate) :
    Path.isAbsolute candidate = true := by
  unfold candidate? at h
  split at h
  · obtain rfl := Option.some.inj h
    refine Path.isAbsolute_normalize ?_
    split
    · exact Path.isAbsolute_join hbase _
    · exact Path.isAbsolute_join (Path.isAbsolute_join hbase _) _
  · split at h
    · obtain rfl := Option.some.inj h
      exact Path.isAbsolute_normalize (Path.isAbsolute_join hdirectory _)
    · obtain rfl := Option.some.inj h
      exact Path.isAbsolute_normalize (Path.isAbsolute_join hbase _)
    · cases h

theorem isAbsolute_of_mem_variants {candidate path : String}
    (hcandidate : Path.isAbsolute candidate = true) (h : path ∈ variants settings candidate) :
    Path.isAbsolute path = true := by
  unfold variants at h
  rcases List.mem_cons.1 h with rfl | h
  · exact hcandidate
  · rcases List.mem_append.1 h with h | h
    · obtain ⟨extension, -, rfl⟩ := List.mem_map.1 h
      exact Path.isAbsolute_append hcandidate extension
    · obtain ⟨extension, -, rfl⟩ := List.mem_map.1 h
      exact Path.isAbsolute_join hcandidate _

theorem isAbsolute_of_mem_edges {file target : String}
    (hbase : Path.isAbsolute settings.base = true) (hfile : Path.isAbsolute file = true)
    (h : target ∈ edges disk settings file) : Path.isAbsolute target = true := by
  unfold edges at h
  split at h
  · cases h
  · rename_i content hread
    have hdirectory : Path.isAbsolute (Path.directory file) = true :=
      Path.isAbsolute_directory hfile (Disk.components_ne_root hread)
    have hexisting : ∀ addresses : List (List Char),
        target ∈ addresses.filterMap (existing? disk (Path.directory file)) →
        Path.isAbsolute target = true := by
      intro addresses hmem
      obtain ⟨address, -, haddress⟩ := List.mem_filterMap.1 hmem
      exact isAbsolute_of_existing? hdirectory haddress
    simp only at h
    split at h
    · unfold ofScript at h
      simp only at h
      split at h
      · obtain ⟨specifier, -, hresolve⟩ := List.mem_filterMap.1 h
        obtain ⟨candidate, hcandidate, hfind⟩ := Option.bind_eq_some_iff.1 hresolve
        exact isAbsolute_of_mem_variants (isAbsolute_of_candidate? hbase hdirectory hcandidate)
          (List.mem_of_find?_eq_some hfind)
      · cases h
    · split at h
      · exact hexisting _ h
      · split at h
        · rcases List.mem_append.1 h with h | h
          · exact hexisting _ h
          · exact hexisting _ h
        · cases h

theorem Chain.isAbsolute {start file : String} {length : Nat}
    (hbase : Path.isAbsolute settings.base = true) (hstart : Path.isAbsolute start = true)
    (h : Chain disk settings start length file) : Path.isAbsolute file = true := by
  induction h with
  | here _ => exact hstart
  | next _ edge _ ih => exact isAbsolute_of_mem_edges hbase ih edge

theorem isAbsolute_of_mem_reachable {entry file : String}
    (hbase : Path.isAbsolute settings.base = true) (h : file ∈ reachable disk settings entry) :
    Path.isAbsolute file = true := by
  obtain ⟨result, hwalk, hresult⟩ := walk_reachable disk settings entry
  rw [← hresult] at h
  obtain ⟨entry, hvisited, rfl⟩ := List.mem_map.1 h
  obtain ⟨-, hchain⟩ := (hwalk.inv (walkInv_start disk settings _)).chain _ hvisited
  exact hchain.isAbsolute hbase (Path.isAbsolute_normalize (Path.isAbsolute_join hbase _))

theorem isAbsolute_of_mem_directoryFiles {directory path : String}
    (hdirectory : Path.isAbsolute directory = true) (h : path ∈ directoryFiles disk directory) :
    Path.isAbsolute path = true := by
  unfold directoryFiles at h
  split at h
  · cases h
  · obtain ⟨names, -, rfl⟩ := List.mem_map.1 (List.mem_filter.1 h).1
    exact Path.isAbsolute_join hdirectory _

/-! ## Collected assets -/

theorem name_of_load? {clean : String → String} {path : String} {asset : Asset}
    (h : load? disk clean path = some asset) : asset.name = Path.forward path := by
  obtain ⟨raw, -, rfl⟩ := Option.map_eq_some_iff.1 h
  rfl

/-- From an absolute base every collected asset is named by an absolute path. -/
theorem head?_name_of_mem_collect {target : String} {assets : AssetMap} {asset : Asset}
    (hbase : Path.isAbsolute settings.base = true)
    (hcollect : collect disk settings target = .ok assets) (hasset : asset ∈ assets.all) :
    asset.name.toList.head? = some '/' := by
  have htarget : Path.isAbsolute (Path.normalize (Path.join settings.base target)) = true :=
    Path.isAbsolute_normalize (Path.isAbsolute_join hbase target)
  have hnamed : ∀ (clean : String → String) (paths : List String),
      (∀ path ∈ paths, Path.isAbsolute path = true) →
      asset ∈ (AssetMap.ofList (paths.filterMap (load? disk clean))).all →
      asset.name.toList.head? = some '/' := by
    intro clean paths habsolute hmem
    obtain ⟨path, hpath, hload⟩ := List.mem_filterMap.1 (mem_all_ofList.1 hmem)
    rw [name_of_load? hload]
    exact Path.head?_forward (habsolute path hpath)
  unfold collect at hcollect
  simp only at hcollect
  split at hcollect
  · cases hcollect
  · rw [Except.ok.injEq] at hcollect
    rw [← hcollect] at hasset
    exact hnamed _ _ (fun path => isAbsolute_of_mem_directoryFiles htarget) hasset
  · rw [Except.ok.injEq] at hcollect
    rw [← hcollect] at hasset
    exact hnamed _ _ (fun path => isAbsolute_of_mem_reachable hbase) hasset

end Dependency
end AssetAudit
