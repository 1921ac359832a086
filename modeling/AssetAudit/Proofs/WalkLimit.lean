import AssetAudit.Dependency.Graph
import AssetAudit.Proofs.DiskPlace
import Mathlib.Data.List.Nodup
import Mathlib.Data.List.Perm.Subperm
import Mathlib.Tactic.Ring

/-!
# How many files a walk can visit

An edge leads to a path in normal form with one of the endings behind it (`IsTarget`, `edges_isTarget`).
Cut where the first slash of the ending stands, the path leads to a place of the disk by names alone.
There are only so many lists of names that do, counted by the links they come to (`mem_spellings`,
`length_spellings_le`), so the segments of such a path that is a file stand in a list of known length
(`IsTarget.mem_pool`). A list of such files without two spellings of a path is no longer than
`visitLimit` (`length_le_visitLimit`).
-/
namespace AssetAudit.Dependency

open AssetAudit.Path (segments component? IsNormal)

/-- A path as the walk comes to it. -/
def IsTarget (settings : Settings) (path : String) : Prop :=
  ∃ base ending, IsNormal base ∧ ending ∈ settings.endings ∧ path = base ++ ending

theorem isTarget_of_isNormal {path : String} (h : IsNormal path) (settings : Settings) :
    IsTarget settings path :=
  ⟨path, "", h, List.mem_cons_self, String.append_empty.symm⟩

/-! ## Where edges lead -/

theorem existing?_isNormal {disk : Disk} {directory path : String} {address : List Char}
    (h : existing? disk directory address = some path) : IsNormal path := by
  unfold existing? at h
  split at h
  · cases h
  · rw [Option.ite_none_right_eq_some, Option.some.injEq] at h
    rw [← h.2]
    exact Path.normalize_normal _

theorem candidate?_isNormal {settings : Settings} {directory specifier candidate : String}
    (h : candidate? settings directory specifier = some candidate) : IsNormal candidate := by
  unfold candidate? at h
  split at h
  · cases h; exact Path.normalize_normal _
  · split at h
    · cases h; exact Path.normalize_normal _
    · cases h; exact Path.normalize_normal _
    · cases h

theorem join_index (candidate extension : String) :
    Path.join candidate ("index" ++ extension) = candidate ++ ("index" ++ extension) ∨
      Path.join candidate ("index" ++ extension) = candidate ++ ("/index" ++ extension) := by
  unfold Path.join
  have hrel : Path.isAbsolute ("index" ++ extension) = false := by
    simp [Path.isAbsolute]
  split
  · rename_i hc
    have hempty : candidate = "" := by simpa [hrel] using hc
    left; rw [hempty, String.empty_append]
  · split
    · left; rfl
    · right
      have hindex : "/" ++ "index" = "/index" := by decide
      rw [← hindex, String.append_assoc, String.append_assoc]

theorem variants_isTarget {settings : Settings} {candidate path : String}
    (hc : IsNormal candidate) (h : path ∈ variants settings candidate) : IsTarget settings path := by
  unfold variants at h
  rcases List.mem_cons.1 h with rfl | h
  · exact isTarget_of_isNormal hc settings
  · rcases List.mem_append.1 h with h | h
    · obtain ⟨extension, he, rfl⟩ := List.mem_map.1 h
      exact ⟨candidate, extension, hc, by simp [Settings.endings, he], rfl⟩
    · obtain ⟨extension, he, rfl⟩ := List.mem_map.1 h
      rcases join_index candidate extension with hj | hj
      · exact ⟨candidate, _, hc, by simp [Settings.endings, he], hj⟩
      · exact ⟨candidate, _, hc, by simp [Settings.endings, he], hj⟩

/-- An edge leads to one of the paths that are tried for a path in normal form. -/
theorem edges_variant {disk : Disk} {settings : Settings} {file target : String}
    (h : target ∈ edges disk settings file) :
    ∃ candidate, IsNormal candidate ∧ target ∈ variants settings candidate := by
  have hexisting : ∀ directory (addresses : List (List Char)),
      target ∈ addresses.filterMap (existing? disk directory) →
      ∃ candidate, IsNormal candidate ∧ target ∈ variants settings candidate := by
    intro directory addresses hm
    obtain ⟨address, -, ha⟩ := List.mem_filterMap.1 hm
    exact ⟨target, existing?_isNormal ha, List.mem_cons_self⟩
  unfold edges at h
  split at h
  · cases h
  · simp only at h
    split at h
    · unfold ofScript at h
      simp only at h
      split at h
      · obtain ⟨specifier, -, hs⟩ := List.mem_filterMap.1 h
        obtain ⟨candidate, hc, hfind⟩ := Option.bind_eq_some_iff.1 hs
        exact ⟨candidate, candidate?_isNormal hc, List.mem_of_find?_eq_some hfind⟩
      · cases h
    · split at h
      · exact hexisting _ _ h
      · split at h
        · rcases List.mem_append.1 h with h | h
          · exact hexisting _ _ h
          · exact hexisting _ _ h
        · cases h

theorem edges_isTarget {disk : Disk} {settings : Settings} {file target : String}
    (h : target ∈ edges disk settings file) : IsTarget settings target := by
  obtain ⟨candidate, hc, hmem⟩ := edges_variant h
  exact variants_isTarget hc hmem

/-! ## The paths that can be files -/

/-- Where a link leads, with so many links on the way. -/
def leadsTo? (disk : Disk) (links : Nat) (entry : List String × Node) : Option (List String) :=
  match entry.2 with
  | .link target =>
    disk.follow? links (if Path.isAbsolute target then [] else entry.1.dropLast) (segments target)
  | _ => none

/-- The lists of names that can lead from a place to places of the disk: down to where they stand, or
down to a link and on from where it leads. -/
def spellings (disk : Disk) : Nat → List String → List (List String)
  | 0, names => disk.places.map (·.drop names.length)
  | links + 1, names =>
    disk.places.map (·.drop names.length) ++ (disk.nodes.filter (·.2.isLink)).flatMap fun entry =>
      ((leadsTo? disk links entry).elim [] (spellings disk links)).map (entry.1.drop names.length ++ ·)

theorem length_flatMap_le {α β : Type} {f : α → List β} {bound : Nat} :
    ∀ {items : List α}, (∀ item ∈ items, (f item).length ≤ bound) →
      (items.flatMap f).length ≤ items.length * bound
  | [], _ => Nat.zero_le _
  | item :: items, h => by
    have hrest := length_flatMap_le fun other hother => h other (List.mem_cons_of_mem _ hother)
    have hitem := h item List.mem_cons_self
    rw [List.flatMap_cons, List.length_append, List.length_cons, Nat.succ_mul, Nat.add_comm]
    exact Nat.add_le_add hrest hitem

theorem length_spellings_le (disk : Disk) : ∀ (links : Nat) (names : List String),
    (spellings disk links names).length ≤
      disk.placeLimit * (disk.nodes.countP (·.2.isLink) + 1) ^ links
  | 0, names => by simp [spellings, Disk.length_places]
  | links + 1, names => by
    generalize hentries : disk.nodes.filter (·.2.isLink) = entries
    have hcount : disk.nodes.countP (·.2.isLink) = entries.length := by
      rw [List.countP_eq_length_filter, hentries]
    rw [spellings, hentries, hcount, List.length_append, List.length_map, Disk.length_places]
    have hlink : (entries.flatMap fun entry =>
        ((leadsTo? disk links entry).elim [] (spellings disk links)).map
          (entry.1.drop names.length ++ ·)).length ≤
        entries.length * (disk.placeLimit * (entries.length + 1) ^ links) := by
      refine length_flatMap_le fun entry _ => ?_
      rw [List.length_map, ← hcount]
      cases leadsTo? disk links entry with
      | none => exact Nat.zero_le _
      | some place => exact length_spellings_le disk links place
    have hone : disk.placeLimit ≤ disk.placeLimit * (entries.length + 1) ^ links :=
      Nat.le_mul_of_pos_right _ (Nat.pow_pos (Nat.succ_pos _))
    calc disk.placeLimit + _
        ≤ disk.placeLimit * (entries.length + 1) ^ links +
          entries.length * (disk.placeLimit * (entries.length + 1) ^ links) := Nat.add_le_add hone hlink
      _ = disk.placeLimit * (entries.length + 1) ^ (links + 1) := by ring

theorem drop_mem_spellings {disk : Disk} {place : List String} (h : place ∈ disk.places) (links : Nat)
    (names : List String) : place.drop names.length ∈ spellings disk links names := by
  have hmem : place.drop names.length ∈ disk.places.map (·.drop names.length) :=
    List.mem_map.2 ⟨place, h, rfl⟩
  cases links with
  | zero => exact hmem
  | succ links => exact List.mem_append_left _ hmem

/-- Names that lead to a place of the disk are among the spellings. -/
theorem mem_spellings {disk : Disk} {links : Nat} {names path found : List String}
    (h : disk.Follows links names path found)
    (hnames : ∀ name ∈ path, component? name = some (.name name)) (hfound : found ∈ disk.places) :
    path ∈ spellings disk links names := by
  -- by the number of links that may be followed; behind the first one there is one less
  induction links generalizing names path with
  | zero =>
    have hplace := h.eq_append hnames
    simpa [hplace] using drop_mem_spellings hfound 0 names
  | succ links ih =>
    rcases h.free_or_jump with hfree | ⟨front, segment, rest, place, target, left, hlinks, rfl, hfront,
      hlink, hjump⟩
    · have hplace := hfree.eq_append hnames
      simpa [hplace] using drop_mem_spellings hfound (links + 1) names
    · cases hlinks
      have hplace := hfront.eq_append fun name hname => hnames name (List.mem_append_left _ hname)
      obtain ⟨next, more, hmore, htarget, hrest⟩ := hjump.split (segments target) rest rfl
      have hnext := ih (hrest.mono hmore) fun name hname =>
        hnames name (List.mem_append_right _ (List.mem_cons_of_mem _ hname))
      refine List.mem_append_right _ (List.mem_flatMap.2 ⟨(place ++ [segment], .link target), ?_, ?_⟩)
      · exact List.mem_filter.2 ⟨Disk.mem_nodes_of_node? hlink (by simp), rfl⟩
      · have hleads : leadsTo? disk links (place ++ [segment], .link target) = some next := by
          simpa [leadsTo?] using Disk.follow?_eq_some_iff.2 htarget
        refine List.mem_map.2 ⟨rest, by rwa [hleads], ?_⟩
        simp [hplace]

/-- Where the stem of a path starts. -/
def stemStart (disk : Disk) (stem : List Path.Component) : List String :=
  if .root ∈ stem then [] else disk.here

/-- The lists of names that can follow a stem. -/
def namesBehind (disk : Disk) (stem : List Path.Component) : List (List String) :=
  (disk.follow? Disk.linkLimit (stemStart disk stem) (stem.map Path.Component.text)).elim []
    (spellings disk Disk.linkLimit)

/-- What can stand where the names end: nothing, or a segment that is no name. -/
def loose : List (List String) := [[], [""], ["."], [".."]]

/-- The segments of every path that the walk can find a file at. -/
def pool (disk : Disk) (settings : Settings) : List (List String) :=
  Path.stems.flatMap fun stem => (namesBehind disk stem).flatMap fun names => loose.flatMap fun extra =>
    settings.endings.map fun ending =>
      stem.map Path.Component.text ++ names ++ extra ++ (segments ending).tail

theorem length_pool_le (disk : Disk) (settings : Settings) :
    (pool disk settings).length ≤ visitLimit disk settings := by
  have hnames : ∀ stem, (namesBehind disk stem).length ≤ disk.spellingLimit := by
    intro stem
    unfold namesBehind
    cases disk.follow? Disk.linkLimit (stemStart disk stem) (stem.map Path.Component.text) with
    | none => exact Nat.zero_le _
    | some place => exact length_spellings_le disk Disk.linkLimit place
  calc (pool disk settings).length
      ≤ Path.stems.length * (disk.spellingLimit * (loose.length * settings.endings.length)) := by
        refine length_flatMap_le fun stem _ => ?_
        refine (length_flatMap_le fun names _ => ?_).trans (Nat.mul_le_mul_right _ (hnames stem))
        exact length_flatMap_le fun extra _ => (List.length_map _).le
    _ = visitLimit disk settings := by
        rw [visitLimit, show Path.stems.length = 4 from rfl, show loose.length = 4 from rfl]
        ring

theorem mem_pool {disk : Disk} {settings : Settings} {stem : List Path.Component}
    {names extra : List String} {ending : String} (hstem : stem ∈ Path.stems)
    (hnames : names ∈ namesBehind disk stem) (hextra : extra ∈ loose)
    (hending : ending ∈ settings.endings) :
    stem.map Path.Component.text ++ names ++ extra ++ (segments ending).tail ∈ pool disk settings :=
  List.mem_flatMap.2 ⟨stem, hstem, List.mem_flatMap.2 ⟨names, hnames,
    List.mem_flatMap.2 ⟨extra, hextra, List.mem_map.2 ⟨ending, hending, rfl⟩⟩⟩⟩

/-- The names behind a stem on the way to a place of the disk. -/
theorem mem_namesBehind {disk : Disk} {stem : List Path.Component} {names rest found : List String}
    (hway : disk.Follows Disk.linkLimit (stemStart disk stem)
      (stem.map Path.Component.text ++ (names ++ rest)) found)
    (hnames : ∀ name ∈ names, component? name = some (.name name)) (hfound : found ∈ disk.places) :
    names ∈ namesBehind disk stem := by
  -- the way is cut behind the stem and behind the names
  obtain ⟨start, left, hleft, hfront, hback⟩ := hway.split _ _ rfl
  obtain ⟨place, more, -, hplace, hrest⟩ := hback.split names rest rfl
  rw [namesBehind, Disk.follow?_eq_some_iff.2 hfront, Option.elim_some]
  exact mem_spellings (hplace.mono hleft) hnames (hrest.start_mem_places hfound)

/-- A path starts where its stem does. Without a stem and names an empty segment in front makes it
absolute. -/
theorem origin_eq_stemStart (disk : Disk) {path z : String} {stem : List Path.Component}
    {names tail : List String} (hstem : stem ∈ Path.stems) (hnames : ∀ name ∈ names, Path.IsName name)
    (hs : segments path = (stem.map Path.Component.text ++ names) ++ z :: tail)
    (hz : stem = [] → names = [] → z ≠ "") : disk.origin path = stemStart disk stem := by
  simp only [Path.stems, List.mem_cons, List.not_mem_nil, or_false] at hstem
  rcases hstem with rfl | rfl | rfl | rfl
  · cases names with
    | nil => exact Disk.origin_relative (by simpa using hs) (hz rfl rfl)
    | cons name names =>
      exact Disk.origin_relative (by simpa using hs) (hnames name List.mem_cons_self).ne_empty
  · exact Disk.origin_absolute (by simpa [Path.Component.text] using hs) (by simp)
  · exact Disk.origin_relative (by simpa [Path.Component.text] using hs) (by decide)
  · exact Disk.origin_absolute (by simpa [Path.Component.text] using hs) (by simp)

theorem IsTarget.mem_pool {disk : Disk} {settings : Settings} {path : String}
    (h : IsTarget settings path) (hfile : disk.isFile path = true) :
    segments path ∈ pool disk settings := by
  obtain ⟨base, ending, hbase, hending, rfl⟩ := h
  obtain ⟨stem, hstem, names, last, hnames, hbs⟩ := hbase.exists_segments
  obtain ⟨y, tail, hes⟩ := List.exists_cons_of_ne_nil (Path.segments_ne_nil ending)
  have hs := Path.segments_append hbs hes
  generalize last ++ y = z at hs
  have htail : (segments ending).tail = tail := by rw [hes]; rfl
  by_cases hodd : stem = [] ∧ names = [] ∧ z = ""
  · obtain ⟨rfl, rfl, rfl⟩ := hodd
    have hnil : [] ∈ namesBehind disk [] := by
      have hfollow : disk.follow? Disk.linkLimit disk.here [] = some disk.here :=
        Disk.follow?_eq_some_iff.2 .done
      rw [namesBehind, show stemStart disk [] = disk.here from rfl, List.map_nil, hfollow]
      have htop : [] ∈ disk.places := List.mem_cons_self
      simpa using drop_mem_spellings htop Disk.linkLimit disk.here
    have hmem := Dependency.mem_pool hstem hnil (show [""] ∈ loose by simp [loose]) hending
    simpa [hs, htail] using hmem
  have hcomponents : ∀ name ∈ names, component? name = some (.name name) :=
    fun name hname => (hnames name hname).component?
  obtain ⟨found, node, hlocate, hnode, -⟩ := Disk.find?_of_isFile hfile
  have hfound := Disk.mem_places_of_node? hnode
  have hway := Disk.follows_of_locate? hlocate
  rw [origin_eq_stemStart disk hstem hnames hs fun h₁ h₂ h₃ => hodd ⟨h₁, h₂, h₃⟩, hs,
    List.append_assoc] at hway
  by_cases hname : z = "" ∨ z = "." ∨ z = ".."
  · -- the names end before `z`
    have hextra : [z] ∈ loose := by
      rcases hname with rfl | rfl | rfl <;> simp [loose]
    have hmem := Dependency.mem_pool hstem (mem_namesBehind hway hcomponents hfound) hextra hending
    simpa [hs, htail] using hmem
  · simp only [not_or] at hname
    have hcomponents' : ∀ name ∈ names ++ [z], component? name = some (.name name) := by
      intro name hmem
      rcases List.mem_append.1 hmem with hmem | hmem
      · exact hcomponents name hmem
      · rw [List.mem_singleton.1 hmem]
        exact Path.component?_eq_name hname.1 hname.2.1 hname.2.2
    rw [List.append_cons names z tail] at hway
    have hmem := Dependency.mem_pool hstem (mem_namesBehind hway hcomponents' hfound)
      (show [] ∈ loose by simp [loose]) hending
    simpa [hs, htail] using hmem

/-- Files that a walk comes to, without two spellings of a path, are not more than the limit. -/
theorem length_le_visitLimit {disk : Disk} {settings : Settings} {files : List String}
    (hnodup : (files.map Path.components).Nodup)
    (hfiles : ∀ file ∈ files, IsTarget settings file ∧ disk.isFile file = true) :
    files.length ≤ visitLimit disk settings := by
  have hsegments : (files.map segments).Nodup := by
    exact (List.Nodup.of_map _ hnodup).map fun _ _ => Path.segments_inj
  have hsub : files.map segments ⊆ pool disk settings := by
    intro path hp
    obtain ⟨file, hf, rfl⟩ := List.mem_map.1 hp
    exact (hfiles file hf).1.mem_pool (hfiles file hf).2
  have hlen := (hsegments.subperm hsub).length_le
  rw [List.length_map] at hlen
  exact hlen.trans (length_pool_le disk settings)

end AssetAudit.Dependency
