import AssetAudit.Proofs.PathSpelling

/-!
# Where a path leads

By its text alone a path leads to a place: a dot stays, `..` leaves the last directory entered, the root
has nothing above it, and a relative path may climb above the directory that it is read from, any number
of steps (`Place`, `place`).

The normal form does not keep that number. A `..` that finds no name to take away is kept, behind the
root too, but the next one takes it away again; so of the steps that find none (`Trail.climbs`) only the
parity is left (`resolve_components`). Two absolute or two relative paths have the same normal form
exactly if their names agree and these parities do. For relative paths that climb one step at most and
for absolute paths that do not climb this means that they lead to the same place
(`normal_forms_agree_iff`).
-/
namespace AssetAudit.Path

/-! ## Places -/

/-- A place, its names with the last one first. -/
inductive Place where
  /-- Below the root. -/
  | rooted (names : List String)
  /-- Below the directory that is `climbs` steps above where the path is read from. -/
  | relative (climbs : Nat) (names : List String)
  deriving DecidableEq, Repr

/-- The place that a component leads to. -/
def Place.enter : Place → Component → Place
  | _, .root => .rooted []
  | place, .current => place
  | .rooted names, .parent => .rooted names.tail
  | .relative climbs [], .parent => .relative (climbs + 1) []
  | .relative climbs (_ :: names), .parent => .relative climbs names
  | .rooted names, .name text => .rooted (text :: names)
  | .relative climbs names, .name text => .relative climbs (text :: names)

/-- The place that a path leads to. -/
def place (path : String) : Place := (components path).foldl Place.enter (.relative 0 [])

/-! ## Trails -/

/-- What the components of a path come to behind its root, if it has one: the names left, the last one
first, and how many times `..` found no name to take away. -/
structure Trail where
  climbs : Nat
  names : List String
  deriving DecidableEq, Repr

def Trail.follow : Trail → Component → Trail
  | ⟨climbs, []⟩, .parent => ⟨climbs + 1, []⟩
  | ⟨climbs, _ :: names⟩, .parent => ⟨climbs, names⟩
  | ⟨climbs, names⟩, .name text => ⟨climbs, text :: names⟩
  | trail, _ => trail

def trail (path : String) : Trail := (components path).foldl Trail.follow ⟨0, []⟩

/-- The place of a trail that starts at the root, or where the path is read from. -/
def Trail.place (absolute : Bool) (trail : Trail) : Place :=
  if absolute then .rooted trail.names else .relative trail.climbs trail.names

/-- What the normal form keeps of a trail, the last component first. -/
def Trail.kept (absolute : Bool) (trail : Trail) : List Component :=
  trail.names.map .name ++ (if trail.climbs % 2 = 1 then [.parent] else []) ++
    if absolute then [.root] else []

theorem Trail.enter_place (trail : Trail) (absolute : Bool) {component : Component}
    (hroot : component ≠ .root) :
    (trail.place absolute).enter component = (trail.follow component).place absolute := by
  obtain ⟨climbs, names⟩ := trail
  cases component with
  | root => exact absurd rfl hroot
  | current => cases absolute <;> cases names <;> rfl
  | parent => cases absolute <;> cases names <;> rfl
  | name text => cases absolute <;> cases names <;> rfl

/-- What is kept after a component is what is kept of the trail that follows it. -/
theorem Trail.resolveStep_kept (trail : Trail) (absolute : Bool) {component : Component}
    (hroot : component ≠ .root) :
    resolveStep (trail.kept absolute) component = (trail.follow component).kept absolute := by
  obtain ⟨climbs, names⟩ := trail
  cases component with
  | root => exact absurd rfl hroot
  | current => cases names <;> rfl
  | name text => cases names <;> rfl
  | parent =>
    cases names with
    | cons text names => rfl
    | nil =>
      -- a `..` is kept if none is, and else takes away the one that is
      rcases Nat.mod_two_eq_zero_or_one climbs with hparity | hparity
      · have hnext : (climbs + 1) % 2 = 1 := by omega
        cases absolute <;> simp [kept, follow, resolveStep, hparity, hnext]
      · have hnext : (climbs + 1) % 2 = 0 := by omega
        cases absolute <;> simp [kept, follow, resolveStep, hparity, hnext]

/-- What one component keeps, components other than the root keep one after another. -/
theorem Trail.foldl_view {State : Type} {view : Trail → State} {step : State → Component → State}
    (hstep : ∀ (trail : Trail) (component : Component), component ≠ .root →
      step (view trail) component = view (trail.follow component)) :
    ∀ {components : List Component}, .root ∉ components → ∀ trail : Trail,
      components.foldl step (view trail) = view (components.foldl follow trail)
  | [], _, _ => rfl
  | component :: rest, hroot, trail => by
    rw [List.mem_cons, not_or] at hroot
    rw [List.foldl_cons, List.foldl_cons, hstep trail component (Ne.symm hroot.1),
      foldl_view hstep hroot.2]

/-- A root stands only before all other components. -/
theorem exists_components_eq (path : String) : ∃ rest, .root ∉ rest ∧
    components path = (if isAbsolute path then [.root] else []) ++ rest := by
  by_cases habsolute : isAbsolute path = true
  · refine ⟨_, root_notMem_filterMap (segments path), ?_⟩
    rw [components_eq, lead, if_pos habsolute, if_pos habsolute]
  · have hmem : Component.root ∉ components path := by rwa [← isAbsolute_iff_mem]
    exact ⟨components path, hmem, by rw [if_neg habsolute, List.nil_append]⟩

theorem place_eq (path : String) : place path = (trail path).place (isAbsolute path) := by
  obtain ⟨rest, hroot, hcomponents⟩ := exists_components_eq path
  rw [place, trail, hcomponents]
  cases isAbsolute path with
  | true => exact Trail.foldl_view (fun trail _ => trail.enter_place true) hroot ⟨0, []⟩
  | false => exact Trail.foldl_view (fun trail _ => trail.enter_place false) hroot ⟨0, []⟩

theorem resolve_components (path : String) :
    resolve (components path) = ((trail path).kept (isAbsolute path)).reverse := by
  obtain ⟨rest, hroot, hcomponents⟩ := exists_components_eq path
  rw [resolve, trail, hcomponents]
  congr 1
  cases isAbsolute path with
  | true => exact Trail.foldl_view (fun trail _ => trail.resolveStep_kept true) hroot ⟨0, []⟩
  | false => exact Trail.foldl_view (fun trail _ => trail.resolveStep_kept false) hroot ⟨0, []⟩

/-! ## Places and normal forms -/

theorem Trail.count_parent_kept (trail : Trail) (absolute : Bool) :
    (trail.kept absolute).count .parent = trail.climbs % 2 := by
  have hnames : (trail.names.map Component.name).count .parent = 0 := by
    simp [List.count_eq_zero]
  rcases Nat.mod_two_eq_zero_or_one trail.climbs with hparity | hparity <;>
    cases absolute <;> simp [kept, List.count_append, hnames, hparity]

/-- What is kept of a trail tells its names and the parity of its climbs. -/
theorem Trail.kept_inj {a b : Trail} {absolute : Bool} :
    a.kept absolute = b.kept absolute ↔ a.names = b.names ∧ a.climbs % 2 = b.climbs % 2 := by
  constructor
  · intro h
    have hparity : a.climbs % 2 = b.climbs % 2 := by
      rw [← a.count_parent_kept absolute, h, b.count_parent_kept]
    refine ⟨?_, hparity⟩
    rw [kept, kept, hparity, List.append_cancel_right_eq, List.append_cancel_right_eq] at h
    exact (List.map_inj_right fun _ _ => Component.name.inj).1 h
  · rintro ⟨hnames, hparity⟩
    rw [kept, kept, hnames, hparity]

theorem normalize_eq_iff_trail {p q : String} (h : isAbsolute p = isAbsolute q) :
    normalize p = normalize q ↔
      (trail p).names = (trail q).names ∧ (trail p).climbs % 2 = (trail q).climbs % 2 := by
  have hcomponents : normalize p = normalize q ↔
      resolve (components p) = resolve (components q) := by
    rw [← components_normalize, ← components_normalize]
    exact ⟨congrArg components, (normalize_normal p).eq_of_components (normalize_normal q)⟩
  rw [hcomponents, resolve_components, resolve_components, h, List.reverse_inj, Trail.kept_inj]

theorem place_eq_iff_trail {p q : String} (h : isAbsolute p = isAbsolute q) :
    place p = place q ↔ (trail p).names = (trail q).names ∧
      (isAbsolute p = false → (trail p).climbs = (trail q).climbs) := by
  rw [place_eq, place_eq, ← h, Trail.place, Trail.place]
  cases isAbsolute p <;> simp [and_comm]

/-- Whether a path climbs no further than its normal form tells: not above the root, or one step above
where it is read from. -/
def StaysNear (path : String) : Prop := (trail path).climbs ≤ if isAbsolute path then 0 else 1

instance (path : String) : Decidable (StaysNear path) := inferInstanceAs (Decidable (_ ≤ _))

/-- Paths of one kind have the same normal form exactly if their names agree and the parities of their climbs.
Absolute paths with the same normal form lead to the same place, and relative paths that lead to the same
place have the same normal form; both hold the other way round for paths that stay near. -/
theorem normal_forms_agree_iff {p q : String} (h : isAbsolute p = isAbsolute q) :
    (normalize p = normalize q ↔
      (trail p).names = (trail q).names ∧ (trail p).climbs % 2 = (trail q).climbs % 2) ∧
    (isAbsolute p = true → normalize p = normalize q → place p = place q) ∧
    (isAbsolute p = false → place p = place q → normalize p = normalize q) ∧
    (StaysNear p → StaysNear q → (normalize p = normalize q ↔ place p = place q)) := by
  have hnormal := normalize_eq_iff_trail h
  have hplace := place_eq_iff_trail h
  refine ⟨hnormal, ?_, ?_, ?_⟩
  · intro habsolute hsame
    exact hplace.2 ⟨(hnormal.1 hsame).1, fun hrelative => by simp [habsolute] at hrelative⟩
  · intro hrelative hsame
    obtain ⟨hnames, hclimbs⟩ := hplace.1 hsame
    exact hnormal.2 ⟨hnames, by rw [hclimbs hrelative]⟩
  · intro hp hq
    rw [hnormal, hplace, and_congr_right_iff]
    intro hnames
    unfold StaysNear at hp hq
    rw [← h] at hq
    cases habsolute : isAbsolute p with
    | true =>
      simp only [habsolute, if_true, Nat.le_zero] at hp hq
      simp [hp, hq]
    | false =>
      simp only [habsolute, Bool.false_eq_true, if_false] at hp hq
      simp only [forall_const]
      omega

theorem near_paths_agree :
    (isAbsolute "/a/b/../c" = isAbsolute "/a/.//c/" ∧ StaysNear "/a/b/../c" ∧ StaysNear "/a/.//c/" ∧
      (normalize "/a/b/../c" = normalize "/a/.//c/" ↔ place "/a/b/../c" = place "/a/.//c/")) ∧
    (isAbsolute "a/../../b" = isAbsolute "../b" ∧ StaysNear "a/../../b" ∧ StaysNear "../b" ∧
      (normalize "a/../../b" = normalize "../b" ↔ place "a/../../b" = place "../b")) := by
  have hrooted : isAbsolute "/a/b/../c" = isAbsolute "/a/.//c/" ∧ StaysNear "/a/b/../c" ∧
      StaysNear "/a/.//c/" := by decide +kernel
  have hrelative : isAbsolute "a/../../b" = isAbsolute "../b" ∧ StaysNear "a/../../b" ∧
      StaysNear "../b" := by decide +kernel
  exact ⟨⟨hrooted.1, hrooted.2.1, hrooted.2.2,
      (normal_forms_agree_iff hrooted.1).2.2.2 hrooted.2.1 hrooted.2.2⟩,
    hrelative.1, hrelative.2.1, hrelative.2.2,
      (normal_forms_agree_iff hrelative.1).2.2.2 hrelative.2.1 hrelative.2.2⟩

/-- Two steps up and none have the same normal form; the root and the `..` of the root have not. -/
theorem climbs_told_apart_by_parity :
    place "../.." ≠ place "" ∧ normalize "../.." = normalize "" ∧
    place "/.." = place "/" ∧ normalize "/.." ≠ normalize "/" := by
  decide +kernel

end AssetAudit.Path
