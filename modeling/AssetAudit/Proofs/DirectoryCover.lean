import AssetAudit.Proofs.AbsolutePath
import AssetAudit.Proofs.DefinitionLookup
import AssetAudit.Proofs.LowerCase

/-!
# A directory and the entries in it

A directory is scanned for the files below it that have one of its extensions, an entry for the files it
leads to. The scan of an entry follows links; the walk over a directory passes them by, so it comes to
the files that no link stands before (`walksTo_iff_not_linkBelow`, `mem_directoryFiles_iff`). Four
extensions of scripts are not among those of the directory. Where the files of an entry stand below a
directory, its scan covers that of the entry up to the files with one of the four extensions and those
behind links (`directory_covers_entry_iff`).
-/
namespace AssetAudit

/-! ## Extensions that are examined -/

namespace Text

theorem not_mem_of_splitLast? {c : Char} {text before after : List Char}
    (h : splitLast? c text = some (before, after)) : c ∉ after := by
  unfold splitLast? at h
  rw [Option.ite_none_right_eq_some] at h
  obtain ⟨-, h⟩ := h
  simp only [Option.some.injEq, Prod.mk.injEq] at h
  rw [← h.2, List.mem_reverse]
  intro hmem
  simpa using List.all_eq_true.1 List.all_takeWhile c hmem

end Text

/-- An extension is a dot and a text in lower case that holds no dot. -/
theorem Path.extension_eq (path : String) :
    extension path = "" ∨
      ∃ text, '.' ∉ (Text.lowercase text).toList ∧ extension path = "." ++ Text.lowercase text := by
  unfold extension
  split
  · rename_i text htext
    refine .inr ⟨text, ?_, rfl⟩
    have hdot : '.' ∉ text.toList := by
      unfold extension? at htext
      split at htext
      · cases htext
      · split at htext
        · rename_i stem back hsplit
          rw [Option.ite_none_left_eq_some, Option.some.injEq] at htext
          rw [← htext.2, String.toList_ofList]
          exact Text.not_mem_of_splitLast? hsplit
        · cases htext
    intro hmem
    rw [Text.lowercase, String.toList_ofList] at hmem
    rcases Text.mem_lowercaseFrom hmem with ⟨c, hc, hlower⟩ | hspecial
    · exact hdot (Text.lowerChar_dot hlower ▸ hc)
    · exact absurd hspecial (by decide)
  · exact .inl rfl

/-- The extensions that have a dialect, without their dot. -/
def dialectExtensions : List String := ["js", "jsx", "mjs", "cjs", "ts", "mts", "cts", "tsx"]

/-- An extension that has a dialect is one of these, as it stands. -/
theorem Path.extension_of_dialect {path : String}
    (h : Script.Dialect.ofExtension? (extension path) ≠ none) :
    ∃ bare ∈ dialectExtensions, extension path = "." ++ bare := by
  have hbare : bareExtension (extension path) ∈ dialectExtensions := by
    unfold Script.Dialect.ofExtension? at h
    generalize bareExtension (extension path) = bare at h ⊢
    by_contra hnot
    simp only [dialectExtensions, List.mem_cons, List.not_mem_nil, or_false, not_or] at hnot
    simp [hnot] at h
  rcases extension_eq path with hempty | ⟨text, hdot, htext⟩
  · rw [hempty] at hbare
    exact absurd hbare (by decide)
  · have hdrop : ("." ++ Text.lowercase text).toList.dropWhile (· == '.') =
        (Text.lowercase text).toList := by
      rw [String.toList_append, show ".".toList = ['.'] from rfl, List.singleton_append,
        List.dropWhile_cons_of_pos (by decide)]
      cases hlower : (Text.lowercase text).toList with
      | nil => rfl
      | cons c rest =>
        rw [hlower, List.mem_cons, not_or] at hdot
        exact List.dropWhile_cons_of_neg (by simpa using Ne.symm hdot.1)
    refine ⟨_, hbare, ?_⟩
    have hascii : ∀ bare ∈ dialectExtensions, ∀ d ∈ bare.toList,
        0 < d.toNat ∧ d.toNat < 128 ∧ d ≠ 'k' := by
      decide
    have hsame : (Text.lowercase text).toList = (bareExtension (extension path)).toList := by
      refine Text.lowercase_of_lowercase (hascii _ hbare) ?_
      rw [bareExtension, htext, hdrop, String.ofList_toList]
      exact String.toList_ofList.symm
    rw [← String.toList_inj.1 hsame]
    exact htext

/-- The extensions of scripts that a directory is not scanned for. -/
def uncollectedExtensions : List String := [".mjs", ".cjs", ".mts", ".cts"]

/-- What is examined has an extension a directory is scanned for, or one of the four. -/
theorem mem_directoryExtensions_iff {options : Options} {asset : Asset}
    (h : Survey.examine options asset ≠ .unknown) :
    asset.extension ∈ Dependency.directoryExtensions ↔ asset.extension ∉ uncollectedExtensions := by
  have hmem : asset.extension ∈ [".html", ".htm", ".css"] ++ dialectExtensions.map ("." ++ ·) := by
    unfold Survey.examine at h
    simp only at h
    split at h
    · rename_i hpage
      simp only [Bool.or_eq_true, beq_iff_eq] at hpage
      rcases hpage with hpage | hpage <;> rw [hpage] <;> decide
    · split at h
      · rename_i hstyle
        rw [beq_iff_eq.1 hstyle]
        decide
      · have hdialect : Script.Dialect.ofExtension? asset.extension ≠ none := by
          intro hnone
          rw [hnone] at h
          exact h rfl
        obtain ⟨bare, hbare, heq⟩ := Path.extension_of_dialect hdialect
        exact List.mem_append_right _ (List.mem_map.2 ⟨bare, hbare, heq.symm⟩)
  revert hmem
  generalize asset.extension = extension
  revert extension
  decide

/-! ## Names on a path -/

namespace Path

theorem isName_of_mem_components {path text : String} (h : .name text ∈ components path) :
    IsName text := by
  rw [components_eq, List.mem_append] at h
  rcases h with h | h
  · unfold lead at h
    split at h
    · simp at h
    · split at h <;> simp at h
  · obtain ⟨segment, hsegment, hname⟩ := List.mem_filterMap.1 h
    exact (isName_of_component? hsegment hname).2

theorem exists_mem_splitOn {c : Char} (hslash : c ≠ '/') : ∀ {text : List Char}, c ∈ text →
    ∃ part ∈ text.splitOn '/', c ∈ part
  | d :: text, h => by
    rw [List.splitOn_cons_eq_if_modifyHead]
    by_cases hd : d = '/'
    · obtain ⟨part, hpart, hc⟩ := exists_mem_splitOn hslash
        ((List.mem_cons.1 h).resolve_left fun he => hslash (he.trans hd))
      exact ⟨part, by simp [hd, hpart], hc⟩
    · cases hs : text.splitOn '/' with
      | nil => exact absurd hs (List.splitOn_ne_nil _ _)
      | cons first rest =>
        rcases List.mem_cons.1 h with rfl | h
        · exact ⟨c :: first, by simp [hd], List.mem_cons_self⟩
        · obtain ⟨part, hpart, hc⟩ := exists_mem_splitOn hslash h
          rw [hs, List.mem_cons] at hpart
          rcases hpart with rfl | hpart
          · exact ⟨d :: part, by simp [hd], List.mem_cons_of_mem _ hc⟩
          · exact ⟨part, by simp [hd, hpart], hc⟩

theorem exists_segment_of_mem {path : String} {c : Char} (h : c ∈ path.toList) (hslash : c ≠ '/') :
    ∃ segment ∈ segments path, c ∈ segment.toList := by
  obtain ⟨part, hpart, hc⟩ := exists_mem_splitOn hslash h
  refine ⟨String.ofList part, ?_, by simpa using hc⟩
  rw [segments, Text.splitAt_eq_splitOn]
  exact List.mem_map_of_mem hpart

/-- Apart from slashes and dots the characters of a path stand in its names. -/
theorem exists_name_of_mem {path : String} {c : Char} (h : c ∈ path.toList) (hslash : c ≠ '/')
    (hdot : c ≠ '.') :
    ∃ name ∈ segments path, component? name = some (.name name) ∧ c ∈ name.toList := by
  obtain ⟨name, hsegment, hc⟩ := exists_segment_of_mem h hslash
  refine ⟨name, hsegment, component?_eq_name ?_ ?_ ?_, hc⟩
  · rintro rfl
    cases hc
  · rintro rfl
    exact hdot (by simpa using hc)
  · rintro rfl
    exact hdot (by simpa using hc)

theorem mem_of_mem_join {base path : String} {c : Char} (h : c ∈ (join base path).toList)
    (hslash : c ≠ '/') : c ∈ base.toList ∨ c ∈ path.toList := by
  unfold join at h
  split at h
  · exact .inr h
  · split at h
    · simpa using h
    · simpa [hslash] using h

/-- Only the root ends with a slash. -/
theorem IsNormal.getLast?_ne_slash {path : String} (h : IsNormal path)
    (hroot : Path.components path ≠ [.root]) : path.toList.getLast? ≠ some '/' := by
  intro hslash
  obtain ⟨front, hfront⟩ := List.getLast?_eq_some_iff.1 hslash
  have hpath : path = String.ofList front ++ "/" ++ "" := by
    rw [← String.toList_inj, hfront]
    simp
  have hne : Path.components path ≠ [] := by
    rw [ne_eq, components_eq_nil_iff]
    rintro rfl
    cases hslash
  have htexts : (Path.components path).map Component.text = segments (String.ofList front) ++ [""] := by
    have hsegments := h.components.segments_render
    rw [h.render, textsOf_eq hne hroot] at hsegments
    rw [← hsegments, show [""] = segments "" from rfl, ← segments_append_slash, ← hpath]
  obtain ⟨before, after, hsplit, hbefore, hafter⟩ := List.map_eq_append_iff.1 htexts
  obtain ⟨last, rfl, hlast⟩ := List.map_eq_singleton_iff.1 hafter
  have hmem : last ∈ Path.components path := by simp [hsplit]
  cases last with
  | current => exact absurd hlast (by decide)
  | parent => exact absurd hlast (by decide)
  | name text => exact (isName_of_mem_components hmem).ne_empty hlast
  | root =>
    -- Another component stands before the last one, so this is a second root.
    obtain ⟨rest, hrest, hnone⟩ := components_absolute ((isAbsolute_iff_mem path).2 hmem)
    cases before with
    | nil => exact segments_ne_nil _ hbefore.symm
    | cons first before =>
      rw [hrest, List.cons_append, List.cons.injEq] at hsplit
      exact hnone (by simp [hsplit.2])

/-- Names make a path that says just these. -/
theorem segments_names {names : List String} (hnames : ∀ name ∈ names, IsName name)
    (hcons : names ≠ []) : segments ("/".intercalate names) = names :=
  segments_intercalate names hcons fun name hname => (hnames name hname).no_slash

theorem isAbsolute_names {names : List String} (hnames : ∀ name ∈ names, IsName name)
    (hcons : names ≠ []) : isAbsolute ("/".intercalate names) = false := by
  rw [Bool.eq_false_iff, ne_eq, isAbsolute_iff]
  rintro ⟨rest, -, hrest⟩
  rw [segments_names hnames hcons] at hrest
  exact (hnames "" (hrest ▸ List.mem_cons_self)).ne_empty rfl

theorem components_join_names {directory : String} (hne : directory ≠ "") {names : List String}
    (hnames : ∀ name ∈ names, IsName name) (hcons : names ≠ []) :
    components (join directory ("/".intercalate names)) = components directory ++ names.map .name := by
  rw [components_join hne (isAbsolute_names hnames hcons), segments_names hnames hcons,
    filterMap_names hnames]

/-- Names behind a directory in normal form make a path in normal form. -/
theorem IsNormal.join_names {directory : String} (h : IsNormal directory) (hne : directory ≠ "")
    {names : List String} (hnames : ∀ name ∈ names, IsName name) (hcons : names ≠ []) :
    Path.join directory ("/".intercalate names) =
      Path.render (Path.components directory ++ names.map .name) := by
  have hcomponents : Path.components directory ≠ [] := by
    rwa [ne_eq, components_eq_nil_iff]
  rw [render_eq, textsOf_names _ hcons,
    String.intercalate_append_of_ne_nil (by simpa using hcomponents) hcons]
  by_cases hroot : Path.components directory = [.root]
  · have hdirectory : directory = "/" := by
      rw [← h.render, hroot]
      rfl
    rw [hroot, hdirectory, Path.join, isAbsolute_names hnames hcons]
    simp [Component.text]
  · have htext : "/".intercalate ((Path.components directory).map Component.text) = directory := by
      rw [← textsOf_eq hcomponents hroot, ← render_eq, h.render]
    rw [htext, Path.join, isAbsolute_names hnames hcons]
    simp [hne, h.getLast?_ne_slash hroot]

end Path

/-! ## Files below a directory -/

/-- Whether every name on the disk can be the name of a file and holds no backslash. -/
structure Disk.Plain (disk : Disk) : Prop where
  isName : ∀ entry ∈ disk.nodes, ∀ name ∈ entry.1, Path.IsName name
  noBackslash : ∀ entry ∈ disk.nodes, ∀ name ∈ entry.1, '\\' ∉ name.toList

instance (text : String) : Decidable (Path.IsName text) :=
  decidable_of_iff (text ≠ "" ∧ text ≠ "." ∧ text ≠ ".." ∧ '/' ∉ text.toList)
    ⟨fun h => ⟨h.1, h.2.1, h.2.2.1, h.2.2.2⟩, fun h => ⟨h.1, h.2, h.3, h.4⟩⟩

instance (disk : Disk) : Decidable disk.Plain :=
  decidable_of_iff ((∀ entry ∈ disk.nodes, ∀ name ∈ entry.1, Path.IsName name) ∧
      ∀ entry ∈ disk.nodes, ∀ name ∈ entry.1, '\\' ∉ name.toList)
    ⟨fun h => ⟨h.1, h.2⟩, fun h => ⟨h.1, h.2⟩⟩

/-- Whether a path goes on from a directory by names alone. -/
def Path.Below (directory file : String) : Prop :=
  ∃ names : List String, components file = components directory ++ names.map .name

/-- Whether a link stands below a directory, on the way to a file or at its end. -/
def Disk.LinkBelow (disk : Disk) (directory file : String) : Prop :=
  ∃ place names front target, disk.locate? directory = some place ∧
    Path.components file = Path.components directory ++ names.map .name ∧ front <+: names ∧
    disk.node? (place ++ front) = some (.link target)

namespace Disk

variable {disk : Disk}

theorem isFileAt_of_walksTo {names rest : List String} (h : disk.walksTo names rest = true) :
    disk.isFileAt (names ++ rest) = true := by
  induction rest generalizing names with
  | nil => rwa [List.append_nil]
  | cons name rest ih =>
    rw [walksTo, Bool.and_eq_true] at h
    simpa using ih h.2

/-- A walk comes to no link. -/
theorem ne_link_of_walksTo {names rest front : List String} (h : disk.walksTo names rest = true)
    (hfront : front <+: rest) (target : String) : disk.node? (names ++ front) ≠ some (.link target) := by
  intro hlink
  induction rest generalizing names front with
  | nil =>
    rw [List.prefix_nil.1 hfront, List.append_nil] at hlink
    rw [walksTo, isFileAt, hlink] at h
    cases h
  | cons name rest ih =>
    rw [walksTo, Bool.and_eq_true] at h
    cases front with
    | nil =>
      rw [List.append_nil] at hlink
      rw [isDirectoryAt, hlink] at h
      cases h.1
    | cons other front =>
      obtain ⟨rfl, hrest⟩ := List.cons_prefix_cons.1 hfront
      exact ih h.2 hrest (by simpa using hlink)

/-- A walk comes to the file that names lead to without links. -/
theorem Follows.walksTo {names rest found : List String} (h : disk.Follows 0 names rest found)
    (hnames : ∀ name ∈ rest, Path.component? name = some (.name name))
    (hfile : disk.isFileAt found = true) : disk.walksTo names rest = true := by
  induction rest generalizing names with
  | nil =>
    cases h
    exact hfile
  | cons name rest ih =>
    cases h with
    | step hdirectory hstep hrest =>
      rw [hstep.eq_append (hnames name List.mem_cons_self)] at hrest
      have hwalk := ih hrest fun name h => hnames name (List.mem_cons_of_mem _ h)
      rw [Disk.walksTo, hdirectory, hwalk]
      rfl

theorem exists_entry_of_walksTo {names rest : List String} (h : disk.walksTo names rest = true) :
    ∃ node, (names ++ rest, node) ∈ disk.nodes := by
  have hfile := isFileAt_of_walksTo h
  rw [isFileAt, Option.any_eq_true] at hfile
  obtain ⟨node, hnode, hfile⟩ := hfile
  exact ⟨node, mem_nodes_of_node? hnode (by rintro rfl; cases hfile)⟩

theorem mem_filesBelow_iff {skipped names rest : List String} :
    rest ∈ disk.filesBelow skipped names ↔
      rest ≠ [] ∧ (∀ name ∈ rest, name ∉ skipped) ∧ disk.walksTo names rest = true := by
  unfold filesBelow
  rw [List.mem_mergeSort, List.mem_filterMap]
  constructor
  · rintro ⟨⟨path, node⟩, hentry, h⟩
    simp only at h
    split at h
    · rename_i name tail hstart
      rw [Option.ite_none_left_eq_some, Option.some.injEq] at h
      obtain ⟨hkept, rfl⟩ := h
      simp only [Bool.or_eq_true, not_or, List.any_eq_true, not_exists, not_and,
        List.contains_iff_mem, Bool.not_eq_true', Bool.not_eq_false] at hkept
      exact ⟨List.cons_ne_nil _ _, hkept⟩
    · cases h
  · rintro ⟨hne, hkept, hwalk⟩
    obtain ⟨name, tail, rfl⟩ := List.exists_cons_of_ne_nil hne
    obtain ⟨node, hentry⟩ := exists_entry_of_walksTo hwalk
    have hstart : names.isPrefixOf? (names ++ name :: tail) = some (name :: tail) :=
      List.isPrefixOf?_eq_some_iff_append_eq.2 rfl
    refine ⟨_, hentry, ?_⟩
    simp only [hstart]
    rw [if_neg]
    simp only [Bool.or_eq_true, not_or, List.any_eq_true, not_exists, not_and,
      List.contains_iff_mem, Bool.not_eq_true', Bool.not_eq_false]
    exact ⟨hkept, hwalk⟩

/-- The way from a directory to what stands below it. -/
theorem follows_of_below {directory file : String} {place found names : List String}
    (hdirectory : disk.locate? directory = some place) (hfile : disk.locate? file = some found)
    (hnames : Path.components file = Path.components directory ++ names.map .name) :
    ∃ links, disk.Follows links place names found := by
  have hkept : ((names.map Path.Component.name).filter fun component =>
      component ≠ .root ∧ component ≠ .current).map Path.Component.text = names := by
    rw [List.filter_eq_self.2 (by simp), List.map_map]
    exact List.map_id names
  have horigin : disk.origin file = disk.origin directory := origin_congr (by simp [hnames])
  have hway := follows_solid_of_locate? hfile
  rw [horigin, solid_segments, hnames, List.filter_append, List.map_append, ← solid_segments,
    hkept] at hway
  obtain ⟨place', links, -, hplace, hrest⟩ := hway.split _ _ rfl
  rw [hplace.unique (follows_solid_of_locate? hdirectory)] at hrest
  exact ⟨links, hrest⟩

/-- A walk from a directory comes to a file below it unless there is a link on the way. -/
theorem walksTo_iff_not_linkBelow {directory file : String} {place found names : List String}
    (hdirectory : disk.locate? directory = some place) (hfile : disk.locate? file = some found)
    (hfound : disk.isFileAt found = true)
    (hnames : Path.components file = Path.components directory ++ names.map .name) :
    disk.walksTo place names = true ↔ ¬ disk.LinkBelow directory file := by
  constructor
  · rintro hwalk ⟨place', names', front, target, hplace, hnames', hfront, hlink⟩
    rw [hdirectory, Option.some.injEq] at hplace
    rw [hnames, List.append_cancel_left_eq] at hnames'
    rw [← List.map_injective_iff.2 (fun _ _ => Path.Component.name.inj) hnames'] at hfront
    exact ne_link_of_walksTo hwalk hfront target (hplace ▸ hlink)
  · intro hfree
    have hcomponents : ∀ name ∈ names, Path.component? name = some (.name name) := by
      intro name hname
      have hmem : .name name ∈ Path.components file := by
        rw [hnames]
        exact List.mem_append_right _ (List.mem_map_of_mem hname)
      exact (Path.isName_of_mem_components hmem).component?
    obtain ⟨links, hway⟩ := follows_of_below hdirectory hfile hnames
    rcases hway.free_or_jump with hdirect | ⟨front, name, rest, before, target, -, -, rfl, hfront, hlink, -⟩
    · exact hdirect.walksTo hcomponents hfound
    · rw [hfront.eq_append fun name hname => hcomponents name (List.mem_append_left _ hname)] at hlink
      refine absurd ⟨place, _, front ++ [name], target, hdirectory, hnames, ?_, ?_⟩ hfree
      · exact ⟨rest, by simp⟩
      · rwa [← List.append_assoc]

/-- What is found on a plain disk has no backslash in its path. -/
theorem Plain.not_mem_of_find? (hplain : disk.Plain) {path : String} {node : Node}
    (h : disk.find? path = some node) : '\\' ∉ path.toList := by
  intro hmem
  obtain ⟨found, hlocate, hnode, -⟩ := find?_eq_some_iff.1 h
  obtain ⟨name, hsegment, hname, hback⟩ := Path.exists_name_of_mem hmem (by decide) (by decide)
  obtain ⟨front, rest, hsplit⟩ := List.append_of_mem hsegment
  obtain ⟨place, links, -, -, hway⟩ := (follows_of_locate? hlocate).split front (name :: rest) hsplit
  have hplace := hway.mem_places hname (mem_places_of_node? hnode)
  obtain ⟨entry, hentry, hinit⟩ := List.mem_flatMap.1 ((List.mem_cons.1 hplace).resolve_left (by simp))
  exact hplain.noBackslash entry hentry name (((List.mem_inits _ _).1 hinit).subset (by simp)) hback

end Disk

namespace Dependency

theorem ofOptions_isNamePart (base : String) (options : Options) :
    ∀ extension ∈ (Settings.ofOptions base options).extensions, Path.IsNamePart extension := by
  have hall : ∀ extension ∈ [".js", ".jsx", ".ts", ".tsx", ".css", ".scss", ".less"],
      '/' ∉ extension.toList ∧ ∃ c ∈ extension.toList, c ≠ '.' := by
    decide
  intro extension hextension
  exact ⟨(hall extension hextension).1, (hall extension hextension).2⟩

/-- What follows the dot that starts a name is no extension. -/
theorem extension_git {path : String} (h : Path.fileName? path = some ".git") :
    Path.extension path = "" := by
  have hsplit : Text.splitLast? '.' ".git".toList = some ([], "git".toList) := by decide
  simp only [Path.extension, Path.extension?, h, hsplit]
  rfl

theorem collect_directory {disk : Disk} {settings : Settings} {target : String}
    (h : disk.isDirectory (Path.normalize (Path.join settings.base target)) = true) :
    collect disk settings target = .ok (.ofList
      ((directoryFiles disk (Path.normalize (Path.join settings.base target))).filterMap
        (load? disk License.clean))) := by
  rw [Disk.isDirectory, beq_iff_eq] at h
  unfold collect
  simp only [h]

theorem collect_file {disk : Disk} {settings : Settings} {target : String}
    (h : disk.isFile (Path.normalize (Path.join settings.base target)) = true) :
    collect disk settings target = .ok (.ofList
      ((reachable disk settings (Path.normalize (Path.join settings.base target))).filterMap
        (load? disk id))) := by
  unfold Disk.isFile at h
  unfold collect
  cases hfind : disk.find? (Path.normalize (Path.join settings.base target)) with
  | none => simp [hfind] at h
  | some node =>
    cases node with
    | directory => simp [hfind] at h
    | text content => simp only [hfind]
    | binary => simp only [hfind]
    | link target => simp only [hfind]

/-- The files of a directory that is not hidden itself. -/
theorem mem_directoryFiles {disk : Disk} {directory path : String} {place : List String}
    (hlocate : disk.locate? directory = some place) (hvisible : .name ".git" ∉ Path.components directory) :
    path ∈ directoryFiles disk directory ↔ Path.extension path ∈ directoryExtensions ∧
      ∃ rest ∈ disk.filesBelow skippedNames place, Path.join directory ("/".intercalate rest) = path := by
  have hvisited : (Path.fileName? directory).any skippedNames.contains = false := by
    cases hname : Path.fileName? directory with
    | none => rfl
    | some text =>
      have htext : text ≠ ".git" := by
        rintro rfl
        exact hvisible (List.mem_of_getLast? (Path.fileName?_eq_some_iff.1 hname))
      simpa [skippedNames] using htext
  unfold directoryFiles
  rw [if_neg (by simp [hvisited]), hlocate, Option.getD_some, List.mem_filter, List.mem_map,
    List.contains_iff_mem, and_comm]

/-- A file that has one of the extensions is not itself called as a hidden directory is. -/
theorem not_mem_skippedNames {directory file : String} {names : List String}
    (hnames : Path.components file = Path.components directory ++ names.map .name)
    (hvisible : .name ".git" ∉ (Path.components file).dropLast)
    (hextension : Path.extension file ∈ directoryExtensions) : ∀ name ∈ names, name ∉ skippedNames := by
  intro name hname hskip
  obtain rfl : name = ".git" := List.mem_singleton.1 hskip
  obtain ⟨front, last, hsplit⟩ :=
    (List.eq_nil_or_concat names).resolve_left (List.ne_nil_of_mem hname)
  rw [List.concat_eq_append] at hsplit
  rw [hsplit, List.map_append, ← List.append_assoc] at hnames
  rw [hnames, List.map_singleton, List.dropLast_concat] at hvisible
  rw [hsplit, List.mem_append, List.mem_singleton] at hname
  rcases hname with hname | rfl
  · exact hvisible (List.mem_append_right _ (List.mem_map_of_mem hname))
  · rw [extension_git (by rw [Path.fileName?_eq_some_iff, hnames]; simp)] at hextension
    exact absurd hextension (by decide)

/-- A file below a directory is found when the directory is scanned, unless it has none of the extensions
or a link stands on its way. -/
theorem mem_directoryFiles_iff {disk : Disk} (hplain : disk.Plain) {directory file content : String}
    (hdirectory : disk.isDirectory directory = true) (hnormal : Path.IsNormal directory)
    (hfile : Path.IsNormal file) (hread : disk.read? file = some content)
    (hbelow : Path.Below directory file)
    (hvisible : .name ".git" ∉ (Path.components file).dropLast) :
    file ∈ directoryFiles disk directory ↔
      Path.extension file ∈ directoryExtensions ∧ ¬ disk.LinkBelow directory file := by
  obtain ⟨names, hnames⟩ := hbelow
  rw [Disk.isDirectory, beq_iff_eq] at hdirectory
  obtain ⟨place, hlocate, hnode, -⟩ := Disk.find?_eq_some_iff.1 hdirectory
  obtain ⟨found, hfound, hcontent, -⟩ := Disk.find?_eq_some_iff.1 (Disk.find?_of_read? hread)
  have hempty : directory ≠ "" := by
    rintro rfl
    cases hlocate
  have hne : names ≠ [] := by
    rintro rfl
    rw [List.map_nil, List.append_nil] at hnames
    rw [Disk.locate?_congr hnames hfound hlocate, hnode] at hcontent
    cases hcontent
  have habove : .name ".git" ∉ Path.components directory := by
    rw [hnames, List.dropLast_append_of_ne_nil (by simpa using hne)] at hvisible
    exact fun hmem => hvisible (List.mem_append_left _ hmem)
  rw [mem_directoryFiles hlocate habove, ← Disk.walksTo_iff_not_linkBelow hlocate hfound
    (by rw [Disk.isFileAt, hcontent]; rfl) hnames]
  refine and_congr_right fun hextension => ?_
  constructor
  · rintro ⟨rest, hrest, hpath⟩
    obtain ⟨hcons, -, hwalk⟩ := Disk.mem_filesBelow_iff.1 hrest
    obtain ⟨node, hentry⟩ := Disk.exists_entry_of_walksTo hwalk
    have hcomponents := Path.components_join_names hempty
      (fun name hname => hplain.isName _ hentry name (List.mem_append_right _ hname)) hcons
    rw [hpath, hnames, List.append_cancel_left_eq] at hcomponents
    rwa [List.map_injective_iff.2 (fun _ _ => Path.Component.name.inj) hcomponents]
  · intro hwalk
    have hisName : ∀ name ∈ names, Path.IsName name := by
      intro name hname
      obtain ⟨node, hentry⟩ := Disk.exists_entry_of_walksTo hwalk
      exact hplain.isName _ hentry name (List.mem_append_right _ hname)
    refine ⟨names, Disk.mem_filesBelow_iff.2
      ⟨hne, not_mem_skippedNames hnames hvisible hextension, hwalk⟩, ?_⟩
    rw [hnormal.join_names hempty hisName hne, ← hnames, hfile.render]

/-- What is found in a directory of a plain disk has no backslash in its path. -/
theorem not_mem_of_mem_directoryFiles {disk : Disk} (hplain : disk.Plain) {directory path : String}
    (hdirectory : disk.isDirectory directory = true) (h : path ∈ directoryFiles disk directory) :
    '\\' ∉ path.toList := by
  rw [Disk.isDirectory, beq_iff_eq] at hdirectory
  have hnone := hplain.not_mem_of_find? hdirectory
  unfold directoryFiles at h
  split at h
  · cases h
  · obtain ⟨rest, hrest, rfl⟩ := List.mem_map.1 (List.mem_filter.1 h).1
    obtain ⟨hne, -, hwalk⟩ := Disk.mem_filesBelow_iff.1 hrest
    obtain ⟨node, hentry⟩ := Disk.exists_entry_of_walksTo hwalk
    have hsegments := Path.segments_names
      (fun name hname => hplain.isName _ hentry name (List.mem_append_right _ hname)) hne
    intro hback
    rcases Path.mem_of_mem_join hback (by decide) with hback | hback
    · exact hnone hback
    · obtain ⟨name, hname, hback⟩ := Path.exists_segment_of_mem hback (by decide)
      rw [hsegments] at hname
      exact hplain.noBackslash _ hentry name (List.mem_append_right _ hname) hback

/-- The scan of a directory covers that of an entry whose files stand below it, up to those of the four
extensions and those behind a link: what is examined is found under the same name if and only if it has
none of the extensions and no link stands on its way. -/
theorem directory_covers_entry_iff {disk : Disk} (hplain : disk.Plain) (base : String)
    (options : Options) {directory entry : String}
    (hdirectory : disk.isDirectory (Path.normalize (Path.join base directory)) = true)
    (hentry : disk.isFile (Path.normalize (Path.join base entry)) = true)
    (hbelow : ∀ file ∈ reachable disk (.ofOptions base options) (Path.normalize (Path.join base entry)),
      Path.Below (Path.normalize (Path.join base directory)) file ∧
        .name ".git" ∉ (Path.components file).dropLast) :
    ∃ whole part, collect disk (.ofOptions base options) directory = .ok whole ∧
      collect disk (.ofOptions base options) entry = .ok part ∧
      ∀ asset ∈ part.all, Survey.examine options asset ≠ .unknown →
        ((∃ found ∈ whole.all, found.name = asset.name) ↔
          asset.extension ∉ uncollectedExtensions ∧
            ¬ disk.LinkBelow (Path.normalize (Path.join base directory)) asset.name) := by
  have hnormal := Path.normalize_normal (Path.join base directory)
  refine ⟨_, _, collect_directory hdirectory, collect_file hentry, ?_⟩
  intro asset hasset hexamined
  obtain ⟨file, hfile, hload⟩ := List.mem_filterMap.1 (mem_all_ofList.1 hasset)
  obtain ⟨content, hread, -⟩ := Option.map_eq_some_iff.1 hload
  have hfileNormal := reachable_isNormal (ofOptions_isNamePart base options) hfile
  obtain ⟨hstands, hvisible⟩ := hbelow file hfile
  have hname : asset.name = file := by
    rw [name_of_load? hload]
    exact Path.forward_eq_self (hplain.not_mem_of_find? (Disk.find?_of_read? hread))
  rw [← mem_directoryExtensions_iff hexamined, Asset.extension, hname,
    ← mem_directoryFiles_iff hplain hdirectory hnormal hfileNormal hread hstands hvisible]
  constructor
  · rintro ⟨found, hfound, hsame⟩
    obtain ⟨path, hpath, hloaded⟩ := List.mem_filterMap.1 (mem_all_ofList.1 hfound)
    have hback := not_mem_of_mem_directoryFiles hplain hdirectory hpath
    rw [name_of_load? hloaded, Path.forward_eq_self hback] at hsame
    exact hsame ▸ hpath
  · intro hmem
    obtain ⟨found, hfound⟩ : ∃ found, load? disk License.clean file = some found :=
      ⟨_, by rw [load?, hread, Option.map_some]⟩
    refine ⟨found, mem_all_ofList.2 (List.mem_filterMap.2 ⟨file, hmem, hfound⟩), ?_⟩
    rw [name_of_load? hfound, ← name_of_load? hload, hname]

theorem page_covered_without_module :
    let disk : Disk := ⟨["app"], [
      (["app", "a.html"], .text ("<script src=\"b.mjs\"></script>\n<script src=\"c.js\"></script>\n" ++
        "<script src=\"d.js\"></script>\n")),
      (["app", "b.mjs"], .text ""), (["app", "c.js"], .text ""), (["app", "d.js"], .link "c.js")]⟩
    let settings : Settings := .ofOptions "/app" { compile := false }
    reachable disk settings "/app/a.html" =
      ["/app/a.html", "/app/b.mjs", "/app/c.js", "/app/d.js"] ∧
    ∃ whole part, collect disk settings "." = .ok whole ∧ collect disk settings "a.html" = .ok part ∧
      ∀ asset ∈ part.all, Survey.examine { compile := false } asset ≠ .unknown →
        ((∃ found ∈ whole.all, found.name = asset.name) ↔
          asset.extension ∉ uncollectedExtensions ∧
            ¬ disk.LinkBelow (Path.normalize (Path.join "/app" ".")) asset.name) := by
  intro disk settings
  have hreachable : reachable disk settings "/app/a.html" =
      ["/app/a.html", "/app/b.mjs", "/app/c.js", "/app/d.js"] := by
    decide +kernel
  have hplain : disk.Plain := by
    decide +kernel
  refine ⟨hreachable, directory_covers_entry_iff hplain "/app" { compile := false } ?_ ?_ ?_⟩
  · decide +kernel
  · decide +kernel
  intro file hfile
  have htarget : Path.normalize (Path.join "/app" "a.html") = "/app/a.html" := by decide +kernel
  rw [htarget, hreachable] at hfile
  simp only [List.mem_cons, List.not_mem_nil, or_false] at hfile
  rcases hfile with rfl | rfl | rfl | rfl
  · exact ⟨⟨["a.html"], by decide +kernel⟩, by decide +kernel⟩
  · exact ⟨⟨["b.mjs"], by decide +kernel⟩, by decide +kernel⟩
  · exact ⟨⟨["c.js"], by decide +kernel⟩, by decide +kernel⟩
  · exact ⟨⟨["d.js"], by decide +kernel⟩, by decide +kernel⟩

/-- The files of a directory whose nodes already stand in their order. -/
theorem directoryFiles_of_filesBelow {disk : Disk} {directory : String} {names : List String}
    {files : List (List String)} (hlocate : disk.locate? directory = some names)
    (hvisible : (Path.fileName? directory).any skippedNames.contains = false)
    (hfiles : disk.filesBelow skippedNames names = files) :
    directoryFiles disk directory =
      (files.map fun names => Path.join directory ("/".intercalate names)).filter fun path =>
        directoryExtensions.contains (Path.extension path) := by
  rw [directoryFiles, if_neg (by simp [hvisible]), hlocate]
  simp only [Option.getD_some, hfiles]

/-- A module that the entry imports is not found in the directory. Nor is one that a link stands for, or
a script whose name ends with a backslash. -/
theorem directory_misses_module :
    let settings : Settings := .ofOptions "/app" { compile := false }
    let modules : Disk := ⟨["app"],
      [(["app", "a.js"], .text "import './b.mjs';\n"), (["app", "b.mjs"], .text "window.x = 1;\n")]⟩
    let linked : Disk := ⟨["app"], [(["app", "a.js"], .text "import './b.js';\n"),
      (["app", "b.js"], .link "../lib/c.js"), (["lib", "c.js"], .text "window.x = 1;\n")]⟩
    let crooked : Disk := ⟨["app"], [(["app", "a.html"], .text "<script src=\"b.js\\\"></script>\n"),
      (["app", "b.js\\"], .text "x\n")]⟩
    let page : Asset := ⟨"/app/a.html", "<script src=\"b.js\\\"></script>\n", none⟩
    collect modules settings "a.js" = .ok ⟨[⟨"/app/a.js", "import './b.mjs';\n", none⟩,
      ⟨"/app/b.mjs", "window.x = 1;\n", none⟩], [], []⟩ ∧
    collect modules settings "." = .ok ⟨[⟨"/app/a.js", "import './b.mjs';\n", none⟩], [], []⟩ ∧
    collect linked settings "a.js" = .ok ⟨[⟨"/app/a.js", "import './b.js';\n", none⟩,
      ⟨"/app/b.js", "window.x = 1;\n", none⟩], [], []⟩ ∧
    collect linked settings "." = .ok ⟨[⟨"/app/a.js", "import './b.js';\n", none⟩], [], []⟩ ∧
    collect crooked settings "a.html" = .ok ⟨[⟨"/app/b.js/", "x\n", none⟩], [], [page]⟩ ∧
    collect crooked settings "." = .ok ⟨[], [], [page]⟩ := by
  intro settings modules linked crooked page
  have htarget : Path.normalize (Path.join settings.base ".") = "/app" := by decide +kernel
  have hmodules : modules.filesBelow skippedNames ["app"] = [["a.js"], ["b.mjs"]] :=
    (List.mergeSort_of_pairwise (by decide +kernel)).trans (by decide +kernel)
  have hlinked : linked.filesBelow skippedNames ["app"] = [["a.js"]] :=
    (List.mergeSort_of_pairwise (by decide +kernel)).trans (by decide +kernel)
  have hcrooked : crooked.filesBelow skippedNames ["app"] = [["a.html"], ["b.js\\"]] :=
    (List.mergeSort_of_pairwise (by decide +kernel)).trans (by decide +kernel)
  refine ⟨by decide +kernel, ?_, by decide +kernel, ?_, by decide +kernel, ?_⟩
  · rw [collect_directory (by decide +kernel), htarget,
      directoryFiles_of_filesBelow (by decide +kernel) (by decide +kernel) hmodules]
    decide +kernel
  · rw [collect_directory (by decide +kernel), htarget,
      directoryFiles_of_filesBelow (by decide +kernel) (by decide +kernel) hlinked]
    decide +kernel
  · rw [collect_directory (by decide +kernel), htarget,
      directoryFiles_of_filesBelow (by decide +kernel) (by decide +kernel) hcrooked]
    decide +kernel

end Dependency
end AssetAudit
