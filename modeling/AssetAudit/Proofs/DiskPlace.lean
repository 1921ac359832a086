import AssetAudit.Disk
import AssetAudit.Proofs.PathSpelling
import Mathlib.Data.List.Infix

/-!
# Places on a disk

A segment of a path stays where it is, goes up or enters (`Step`), or it jumps to what a link stands for.
`Follows` is the way a whole path takes over the disk, which `follow?` computes (`follow?_eq_some_iff`).
A way can be cut anywhere (`Follows.split`), and segments that say nothing can be left out of it
(`Follows.thin`), so spellings of one path that lead to files lead to the same one (`read?_congr`).

What is on the disk stands in `places`, a list as long as `placeLimit` says (`mem_places_of_node?`,
`length_places`).
-/
namespace AssetAudit.Disk

open AssetAudit.Path (Component components component? segments IsName)

variable {disk : Disk}

/-! ## Ways -/

/-- Where a segment leads from a directory, unless it names a link. -/
inductive Step (disk : Disk) (names : List String) : String → List String → Prop
  | stay {segment : String} (hsegment : component? segment = none) : Step disk names segment names
  | up : Step disk names ".." names.dropLast
  | enter {segment : String} (hsegment : component? segment = some (.name segment))
    (hplain : ∀ target, disk.node? (names ++ [segment]) ≠ some (.link target)) :
    Step disk names segment (names ++ [segment])

/-- Where the segments of a path lead from a place, with so many links at most. -/
inductive Follows (disk : Disk) : Nat → List String → List String → List String → Prop
  | done {links : Nat} {names : List String} : Follows disk links names [] names
  | step {links : Nat} {names next rest found : List String} {segment : String}
    (hdirectory : disk.isDirectoryAt names = true) (hstep : disk.Step names segment next)
    (hrest : Follows disk links next rest found) : Follows disk links names (segment :: rest) found
  | jump {links : Nat} {names rest found : List String} {segment target : String}
    (hdirectory : disk.isDirectoryAt names = true)
    (hsegment : component? segment = some (.name segment))
    (hlink : disk.node? (names ++ [segment]) = some (.link target))
    (hrest : Follows disk links (if Path.isAbsolute target then [] else names)
      (segments target ++ rest) found) :
    Follows disk (links + 1) names (segment :: rest) found

/-- A segment makes a step, or it names a link. -/
theorem step_or_link (disk : Disk) (names : List String) (segment : String) :
    (∃ next, disk.Step names segment next) ∨ component? segment = some (.name segment) ∧
      ∃ target, disk.node? (names ++ [segment]) = some (.link target) := by
  by_cases hname : component? segment = some (.name segment)
  · by_cases hplain : ∀ target, disk.node? (names ++ [segment]) ≠ some (.link target)
    · exact .inl ⟨_, .enter hname hplain⟩
    · exact .inr ⟨hname, not_forall_not.1 hplain⟩
  · left
    unfold component? at hname
    split at hname
    · exact ⟨_, .stay rfl⟩
    · exact ⟨_, .stay rfl⟩
    · exact ⟨_, .up⟩
    · exact absurd rfl hname

/-- A segment that says nothing stays where it is. -/
theorem Step.eq_self {names next : List String} {segment : String} (h : disk.Step names segment next)
    (hsegment : component? segment = none) : next = names := by
  cases h with
  | stay => rfl
  | up => cases hsegment
  | enter hname => rw [hname] at hsegment; cases hsegment

/-- A name steps to where it stands. -/
theorem Step.eq_append {names next : List String} {name : String} (h : disk.Step names name next)
    (hname : component? name = some (.name name)) : next = names ++ [name] := by
  cases h with
  | stay hnone => rw [hnone] at hname; cases hname
  | up => cases hname
  | enter => rfl

section followTo

variable {onLink : List String → List String → Option (List String)} {names rest : List String}
  {segment : String}

theorem Step.followTo {next : List String} (h : disk.Step names segment next)
    (hdirectory : disk.isDirectoryAt names = true) :
    disk.followTo onLink names (segment :: rest) = disk.followTo onLink next rest := by
  cases h with
  | stay hsegment => rw [Disk.followTo, if_pos hdirectory, hsegment]
  | up =>
    rw [Disk.followTo, if_pos hdirectory]
    rfl
  | enter hsegment hplain => simp only [Disk.followTo, hdirectory, hsegment, if_true]

theorem followTo_cons_link {target : String} (hdirectory : disk.isDirectoryAt names = true)
    (hsegment : component? segment = some (.name segment))
    (hlink : disk.node? (names ++ [segment]) = some (.link target)) :
    disk.followTo onLink names (segment :: rest) =
      onLink (if Path.isAbsolute target then [] else names) (segments target ++ rest) := by
  simp only [Disk.followTo, hdirectory, hsegment, hlink, if_true]

/-- A way up to the first link, if what `onLink` does is a way with one link less. -/
theorem follows_of_followTo {links : Nat}
    (hjump : ∀ {start rest found : List String}, onLink start rest = some found →
      ∃ left, links = left + 1 ∧ disk.Follows left start rest found) {found : List String}
    (h : disk.followTo onLink names rest = some found) : disk.Follows links names rest found := by
  induction rest generalizing names with
  | nil =>
    cases h
    exact .done
  | cons segment rest ih =>
    have hdirectory : disk.isDirectoryAt names = true := by
      rw [Disk.followTo, Option.ite_none_right_eq_some] at h
      exact h.1
    rcases disk.step_or_link names segment with ⟨next, hstep⟩ | ⟨hsegment, target, hlink⟩
    · rw [hstep.followTo hdirectory] at h
      exact .step hdirectory hstep (ih h)
    · rw [followTo_cons_link hdirectory hsegment hlink] at h
      obtain ⟨left, rfl, hleft⟩ := hjump h
      exact .jump hdirectory hsegment hlink hleft

/-- A way is found by `followTo`, if `onLink` finds the ways with one link less. -/
theorem Follows.followTo {links : Nat} {found : List String}
    (h : disk.Follows links names rest found)
    (hjump : ∀ {left : Nat} {start rest : List String}, links = left + 1 →
      disk.Follows left start rest found → onLink start rest = some found) :
    disk.followTo onLink names rest = some found := by
  induction h with
  | done => rfl
  | step hdirectory hstep _ ih =>
    rw [hstep.followTo hdirectory]
    exact ih hjump
  | jump hdirectory hsegment hlink hrest =>
    rw [followTo_cons_link hdirectory hsegment hlink]
    exact hjump rfl hrest

end followTo

theorem follow?_eq_some_iff {links : Nat} {names segments found : List String} :
    disk.follow? links names segments = some found ↔ disk.Follows links names segments found := by
  induction links generalizing names segments found with
  | zero =>
    constructor
    · exact follows_of_followTo fun hnone => by cases hnone
    · exact fun h => h.followTo fun hlinks _ => by cases hlinks
  | succ links ih =>
    constructor
    · exact follows_of_followTo fun hleft => ⟨links, rfl, ih.1 hleft⟩
    · intro h
      refine h.followTo fun hlinks hleft => ih.2 ?_
      cases hlinks
      exact hleft

theorem Follows.unique {links : Nat} {names path a b : List String}
    (ha : disk.Follows links names path a) (hb : disk.Follows links names path b) : a = b := by
  rw [← follow?_eq_some_iff] at ha hb
  exact Option.some.inj (ha.symm.trans hb)

/-- A way cut in two. -/
theorem Follows.split {links : Nat} {names path found : List String}
    (h : disk.Follows links names path found) : ∀ front rest : List String, path = front ++ rest →
      ∃ place left, left ≤ links ∧ disk.Follows links names front place ∧
        disk.Follows left place rest found := by
  induction h with
  | @done links names =>
    intro front rest hpath
    obtain ⟨rfl, rfl⟩ := List.nil_eq_append_iff.1 hpath
    exact ⟨names, links, Nat.le_refl _, .done, .done⟩
  | @step links names next behind found segment hdirectory hstep hrest ih =>
    intro front rest hpath
    rcases List.cons_eq_append_iff.1 hpath with ⟨rfl, rfl⟩ | ⟨front, rfl, hbehind⟩
    · exact ⟨names, links, Nat.le_refl _, .done, .step hdirectory hstep hrest⟩
    · obtain ⟨place, left, hleft, hfront, hback⟩ := ih front rest hbehind
      exact ⟨place, left, hleft, .step hdirectory hstep hfront, hback⟩
  | @jump links names behind found segment target hdirectory hsegment hlink hrest ih =>
    intro front rest hpath
    rcases List.cons_eq_append_iff.1 hpath with ⟨rfl, rfl⟩ | ⟨front, rfl, hbehind⟩
    · exact ⟨names, links + 1, Nat.le_refl _, .done, .jump hdirectory hsegment hlink hrest⟩
    · -- the path of the link belongs to the first part
      obtain ⟨place, left, hleft, hfront, hback⟩ := ih (segments target ++ front) rest
        (by rw [hbehind, List.append_assoc])
      exact ⟨place, left, Nat.le_succ_of_le hleft, .jump hdirectory hsegment hlink hfront, hback⟩

/-- The segments that say something. -/
def solid (path : List String) : List String := path.filter fun segment => (component? segment).isSome

theorem solid_cons_of_none {segment : String} {rest : List String} (h : component? segment = none) :
    solid (segment :: rest) = solid rest :=
  List.filter_cons_of_neg (by rw [h]; exact Bool.false_ne_true)

theorem solid_cons_of_some {segment : String} {rest : List String} {component : Component}
    (h : component? segment = some component) : solid (segment :: rest) = segment :: solid rest :=
  List.filter_cons_of_pos (by rw [h]; rfl)

/-- The rest of a way does without the segments that say nothing. -/
theorem Follows.thin {links : Nat} {names path found : List String}
    (h : disk.Follows links names path found) : ∀ front rest : List String, path = front ++ rest →
      disk.Follows links names (front ++ solid rest) found := by
  induction h with
  | done =>
    intro front rest hpath
    obtain ⟨rfl, rfl⟩ := List.nil_eq_append_iff.1 hpath
    exact .done
  | @step links names next behind found segment hdirectory hstep hrest ih =>
    intro front rest hpath
    rcases List.cons_eq_append_iff.1 hpath with ⟨rfl, rfl⟩ | ⟨front, rfl, hbehind⟩
    · cases hsegment : component? segment with
      | none =>
        rw [solid_cons_of_none hsegment, ← hstep.eq_self hsegment]
        exact ih [] behind rfl
      | some component =>
        rw [solid_cons_of_some hsegment]
        exact .step hdirectory hstep (ih [] behind rfl)
    · exact .step hdirectory hstep (ih front rest hbehind)
  | @jump links names behind found segment target hdirectory hsegment hlink hrest ih =>
    intro front rest hpath
    rcases List.cons_eq_append_iff.1 hpath with ⟨rfl, rfl⟩ | ⟨front, rfl, hbehind⟩
    · rw [solid_cons_of_some hsegment]
      exact .jump hdirectory hsegment hlink (ih (segments target) behind rfl)
    · have hthin := ih (segments target ++ front) rest (by rw [hbehind, List.append_assoc])
      rw [List.append_assoc] at hthin
      exact .jump hdirectory hsegment hlink hthin

theorem Follows.isDirectoryAt_start {links : Nat} {names rest found : List String} {segment : String}
    (h : disk.Follows links names (segment :: rest) found) : disk.isDirectoryAt names = true := by
  cases h <;> assumption

/-- A way that ends with a segment that says nothing ends at a directory. -/
theorem Follows.isDirectoryAt_end {links : Nat} {names front found : List String} {segment : String}
    (h : disk.Follows links names (front ++ [segment]) found) (hsegment : component? segment = none) :
    disk.isDirectoryAt found = true := by
  obtain ⟨place, left, -, -, hlast⟩ := h.split front [segment] rfl
  cases hlast with
  | step hdirectory hstep hrest =>
    cases hrest
    rwa [hstep.eq_self hsegment]
  | jump _ hname => rw [hsegment] at hname; cases hname

theorem Follows.mono {links more : Nat} {names path found : List String}
    (h : disk.Follows links names path found) (hle : links ≤ more) :
    disk.Follows more names path found := by
  induction h generalizing more with
  | done => exact .done
  | step hdirectory hstep _ ih => exact .step hdirectory hstep (ih hle)
  | jump hdirectory hsegment hlink _ ih =>
    obtain ⟨left, rfl⟩ := Nat.exists_eq_add_of_lt (Nat.lt_of_succ_le hle)
    exact .jump hdirectory hsegment hlink (ih (by omega))

/-- A way is free of links, or it jumps at the first of them. -/
theorem Follows.free_or_jump {links : Nat} {names path found : List String}
    (h : disk.Follows links names path found) : disk.Follows 0 names path found ∨
      ∃ front segment rest place target left, links = left + 1 ∧ path = front ++ segment :: rest ∧
        disk.Follows 0 names front place ∧ disk.node? (place ++ [segment]) = some (.link target) ∧
        disk.Follows left (if Path.isAbsolute target then [] else place) (segments target ++ rest)
          found := by
  induction h with
  | done => exact .inl .done
  | step hdirectory hstep _ ih =>
    rcases ih with hfree | ⟨front, name, rest, place, target, left, hlinks, rfl, hfront, hjump⟩
    · exact .inl (.step hdirectory hstep hfree)
    · exact .inr ⟨_ :: front, name, rest, place, target, left, hlinks, rfl,
        .step hdirectory hstep hfront, hjump⟩
  | @jump links names rest found segment target hdirectory hsegment hlink hrest =>
    exact .inr ⟨[], segment, rest, names, target, links, rfl, rfl, .done, hlink, hrest⟩

/-- Without links, names lead to where they stand. -/
theorem Follows.eq_append {names path found : List String} (h : disk.Follows 0 names path found)
    (hnames : ∀ name ∈ path, component? name = some (.name name)) : found = names ++ path := by
  induction path generalizing names with
  | nil =>
    cases h
    exact (List.append_nil _).symm
  | cons name rest ih =>
    cases h with
    | step _ hstep hrest =>
      rw [ih hrest fun name h => hnames name (List.mem_cons_of_mem _ h),
        hstep.eq_append (hnames name List.mem_cons_self), List.append_assoc, List.singleton_append]

/-! ## Paths -/

/-- What the components of a path say to follow. -/
theorem solid_segments (path : String) : solid (segments path) =
    ((components path).filter fun component => component ≠ .root ∧ component ≠ .current).map
      Component.text := by
  rw [← Path.filterMap_segments, solid]
  induction segments path with
  | nil => rfl
  | cons segment rest ih =>
    rw [List.filterMap_cons]
    cases hsegment : component? segment with
    | none => rw [List.filter_cons_of_neg (by simp [hsegment]), ih]
    | some component =>
      have htext : component.text = segment := by
        unfold component? at hsegment
        split at hsegment <;> cases hsegment <;> rfl
      rw [List.filter_cons_of_pos (by simp [hsegment]), ih, List.map_cons, htext]

theorem origin_absolute {path : String} {rest : List String} (h : segments path = "" :: rest)
    (hne : rest ≠ []) : disk.origin path = [] := by
  have habsolute := (Path.isAbsolute_iff path).2 ⟨rest, hne, h⟩
  rw [origin, if_pos habsolute]

theorem origin_relative {path first : String} {rest : List String} (h : segments path = first :: rest)
    (hne : first ≠ "") : disk.origin path = disk.here := by
  have hrelative : ¬ Path.isAbsolute path = true := by
    rw [Path.isAbsolute_iff]
    rintro ⟨rest', -, h'⟩
    rw [h] at h'
    exact hne (List.cons.inj h').1
  rw [origin, if_neg hrelative]

theorem follows_of_locate? {path : String} {names : List String} (h : disk.locate? path = some names) :
    disk.Follows linkLimit (disk.origin path) (segments path) names := by
  rw [locate?, Option.ite_none_left_eq_some] at h
  exact follow?_eq_some_iff.1 h.2

/-- A path leads where the segments that say something lead. -/
theorem follows_solid_of_locate? {path : String} {names : List String}
    (h : disk.locate? path = some names) :
    disk.Follows linkLimit (disk.origin path) (solid (segments path)) names :=
  (follows_of_locate? h).thin [] (segments path) rfl

theorem origin_congr {a b : String} (h : .root ∈ components a ↔ .root ∈ components b) :
    disk.origin a = disk.origin b := by
  have habsolute : Path.isAbsolute a = Path.isAbsolute b := by
    rw [Bool.eq_iff_iff, Path.isAbsolute_iff_mem, Path.isAbsolute_iff_mem, h]
  rw [origin, origin, habsolute]

/-- Where a path leads is told by its components. -/
theorem locate?_congr {a b : String} {place place' : List String} (h : components a = components b)
    (ha : disk.locate? a = some place) (hb : disk.locate? b = some place') : place = place' := by
  have horigin : disk.origin a = disk.origin b := origin_congr (by rw [h])
  have hway := follows_solid_of_locate? ha
  rw [horigin, solid_segments, h, ← solid_segments] at hway
  exact hway.unique (follows_solid_of_locate? hb)

theorem find?_eq_some_iff {path : String} {node : Node} : disk.find? path = some node ↔
    ∃ names, disk.locate? path = some names ∧ disk.node? names = some node ∧ node.isLink = false := by
  rw [find?, Option.filter_eq_some_iff, Option.bind_eq_some_iff]
  simp only [Bool.not_eq_true', ← and_assoc, exists_and_right]

theorem find?_of_isFile {path : String} (h : disk.isFile path = true) :
    ∃ names node, disk.locate? path = some names ∧ disk.node? names = some node ∧
      disk.find? path = some node := by
  unfold isFile at h
  cases hfind : disk.find? path with
  | none => simp [hfind] at h
  | some node =>
    obtain ⟨names, hlocate, hnode, -⟩ := find?_eq_some_iff.1 hfind
    exact ⟨names, node, hlocate, hnode, rfl⟩

theorem find?_of_read? {path content : String} (h : disk.read? path = some content) :
    disk.find? path = some (.text content) := by
  unfold read? at h
  split at h
  · rename_i found hfound
    rw [hfound, Option.some.inj h]
  · cases h

/-- Two spellings of a path read the same file. -/
theorem read?_congr {a b : String} (h : components a = components b)
    (ha : disk.isFile a = true) (hb : disk.isFile b = true) : disk.read? a = disk.read? b := by
  obtain ⟨m, x, hm, hx, hfx⟩ := find?_of_isFile ha
  obtain ⟨n, y, hn, hy, hfy⟩ := find?_of_isFile hb
  rw [locate?_congr h hm hn, hy] at hx
  rw [read?, read?, hfx, hfy, hx]

/-- A path that is empty or ends with a slash leads to no file. -/
theorem read?_slash (disk : Disk) {path : String} (h : ∀ c, path.toList.getLast? = some c → c = '/') :
    disk.read? path = none := by
  cases hfind : disk.find? path with
  | none => rw [read?, hfind]
  | some node =>
    obtain ⟨names, hplace, hnode, -⟩ := find?_eq_some_iff.1 hfind
    cases hlast : path.toList.getLast? with
    | none =>
      rw [List.getLast?_eq_none_iff, String.toList_eq_nil_iff] at hlast
      rw [hlast] at hplace
      cases hplace
    | some c =>
      obtain rfl := h c hlast
      obtain ⟨front, hfront⟩ := List.getLast?_eq_some_iff.1 hlast
      have hpath : path = String.ofList front ++ "/" ++ "" := by
        rw [← String.toList_inj, hfront]
        simp
      have hway := follows_of_locate? hplace
      rw [show segments path = segments (String.ofList front) ++ [""] by
        rw [hpath, Path.segments_append_slash]; rfl] at hway
      have hdirectory := hway.isDirectoryAt_end rfl
      rw [Disk.isDirectoryAt, hnode, beq_iff_eq] at hdirectory
      rw [read?, hfind, hdirectory]

/-! ## Places -/

/-- The names of everything on the way to a node. -/
def places (disk : Disk) : List (List String) := [] :: disk.nodes.flatMap fun entry => entry.1.inits

theorem length_places (disk : Disk) : disk.places.length = disk.placeLimit := by
  unfold places placeLimit
  induction disk.nodes with
  | nil => rfl
  | cons entry nodes ih =>
    rw [List.length_cons] at ih
    rw [List.flatMap_cons, List.length_cons, List.length_append, List.length_inits, List.foldr_cons]
    omega

theorem mem_places_of_node? {disk : Disk} {names : List String} {node : Node}
    (h : disk.node? names = some node) : names ∈ disk.places := by
  have hprefix : ∀ entry ∈ disk.nodes, names <+: entry.1 → names ∈ disk.places := by
    intro entry he hp
    exact List.mem_cons_of_mem _ (List.mem_flatMap.2 ⟨entry, he, (List.mem_inits _ _).2 hp⟩)
  unfold node? at h
  split at h
  · rename_i found hfound
    obtain ⟨before, after, hsplit, -⟩ := List.lookup_eq_some_iff.1 hfound
    exact hprefix (names, found) (by simp [hsplit]) (List.prefix_refl _)
  · split at h
    · rename_i hsome
      rw [Bool.or_eq_true, List.isEmpty_iff, List.any_eq_true] at hsome
      rcases hsome with rfl | ⟨entry, he, hp⟩
      · exact List.mem_cons_self
      · exact hprefix entry he (List.isPrefixOf_iff_prefix.1 hp)
    · cases h

theorem mem_nodes_of_node? {disk : Disk} {names : List String} {node : Node}
    (h : disk.node? names = some node) (hfile : node ≠ .directory) : (names, node) ∈ disk.nodes := by
  unfold node? at h
  split at h
  · rename_i found hfound
    obtain ⟨before, after, hsplit, -⟩ := List.lookup_eq_some_iff.1 hfound
    rw [Option.some.injEq] at h
    rw [hsplit, ← h]
    simp
  · rw [Option.ite_none_right_eq_some, Option.some.injEq] at h
    exact absurd h.2.symm hfile

theorem mem_places_of_isDirectoryAt {disk : Disk} {names : List String}
    (h : disk.isDirectoryAt names = true) : names ∈ disk.places := by
  rw [isDirectoryAt, beq_iff_eq] at h
  exact mem_places_of_node? h

/-- A way to a place of the disk starts at one. -/
theorem Follows.start_mem_places {links : Nat} {names rest found : List String}
    (h : disk.Follows links names rest found) (hfound : found ∈ disk.places) : names ∈ disk.places := by
  cases rest with
  | nil =>
    cases h
    exact hfound
  | cons => exact mem_places_of_isDirectoryAt h.isDirectoryAt_start

/-- A name on a way to a place of the disk stands on the disk. -/
theorem Follows.mem_places {links : Nat} {names rest found : List String} {segment : String}
    (h : disk.Follows links names (segment :: rest) found)
    (hsegment : component? segment = some (.name segment)) (hfound : found ∈ disk.places) :
    names ++ [segment] ∈ disk.places := by
  cases h with
  | step _ hstep hrest =>
    rw [← hstep.eq_append hsegment]
    exact hrest.start_mem_places hfound
  | jump _ _ hlink => exact mem_places_of_node? hlink

end AssetAudit.Disk
