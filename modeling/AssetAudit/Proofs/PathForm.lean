import AssetAudit.Path
import AssetAudit.Proofs.TextSearch

/-!
# Paths in normal form

A path is its segments with slashes between them (`intercalate_segments`), and its components are read
off the segments (`components_eq`). The components that `resolve` leaves are a stem, one of `stems`,
and names behind it (`resolve_normal`); such a list is read back from its text
(`NormalComponents.components_render`), so that taking the normal form twice changes nothing
(`normalize_normal`) and a path in normal form is given by its components
(`IsNormal.eq_of_components`).

An ending that is no more than a part of a name keeps the form (`IsNormal.append`), and so does the
file of a directory (`IsNormal.join`).
-/
namespace AssetAudit.Path

/-! ## Segments -/

theorem segments_ne_nil (path : String) : segments path ≠ [] := by
  simp [segments, Text.splitAt_eq_splitOn]

/-- A path is what its segments make with slashes between them. -/
theorem intercalate_segments (path : String) : "/".intercalate (segments path) = path := by
  rw [← String.toList_inj, String.toList_intercalate, segments, Text.splitAt_eq_splitOn,
    List.map_map]
  have h : (String.toList ∘ String.ofList : List Char → List Char) = id := by
    funext text; simp
  rw [h, List.map_id]
  exact List.intercalate_splitOn '/'

theorem segments_inj {a b : String} (h : segments a = segments b) : a = b := by
  rw [← intercalate_segments a, h, intercalate_segments]

theorem segments_intercalate (parts : List String) (hne : parts ≠ [])
    (hslash : ∀ part ∈ parts, '/' ∉ part.toList) : segments ("/".intercalate parts) = parts := by
  rw [segments, Text.splitAt_eq_splitOn, String.toList_intercalate]
  have h : (['/'].intercalate (parts.map String.toList)).splitOn '/' = parts.map String.toList :=
    List.splitOn_intercalate '/' (by simpa using hslash) (by simpa using hne)
  rw [show "/".toList = ['/'] from rfl, h, List.map_map]
  have h' : (String.ofList ∘ String.toList : String → String) = id := by funext text; simp
  rw [h', List.map_id]

theorem not_slash_of_mem_splitOn : ∀ (text : List Char), ∀ part ∈ text.splitOn '/', '/' ∉ part
  | [], part, h => by simp_all
  | c :: text, part, h => by
    rw [List.splitOn_cons_eq_if_modifyHead] at h
    have ih := not_slash_of_mem_splitOn text
    split at h
    · rcases List.mem_cons.1 h with rfl | h
      · simp
      · exact ih part h
    · rename_i hc
      cases hs : text.splitOn '/' with
      | nil => exact absurd hs (List.splitOn_ne_nil _ _)
      | cons first rest =>
        rw [hs] at h ih
        rcases List.mem_cons.1 h with rfl | h
        · have := ih first (by simp)
          simp_all
          intro h; exact hc h.symm
        · exact ih part (by simp [h])

theorem not_slash_of_mem_segments (path : String) {segment : String} (h : segment ∈ segments path) :
    '/' ∉ segment.toList := by
  simp only [segments, Text.splitAt_eq_splitOn, List.mem_map] at h
  obtain ⟨part, hpart, rfl⟩ := h
  simpa using not_slash_of_mem_splitOn _ part hpart

/-- Where two texts meet, the last segment of the one and the first of the other become one. -/
theorem segments_append {a b : String} {before after : List String} {x y : String}
    (ha : segments a = before ++ [x]) (hb : segments b = y :: after) :
    segments (a ++ b) = before ++ (x ++ y) :: after := by
  have hjoin : a ++ b = "/".intercalate (before ++ (x ++ y) :: after) := by
    rw [← intercalate_segments a, ← intercalate_segments b, ha, hb]
    cases before with
    | nil => simp
    | cons first before =>
      rw [String.intercalate_append_of_ne_nil (by simp) (by simp),
        String.intercalate_append_of_ne_nil (by simp) (by simp), String.intercalate_cons_append,
        String.intercalate_singleton, String.append_assoc]
  rw [hjoin, segments_intercalate _ (by simp)]
  intro part hpart
  have hx : '/' ∉ x.toList := not_slash_of_mem_segments a (by simp [ha])
  have hy : '/' ∉ y.toList := not_slash_of_mem_segments b (by simp [hb])
  rcases List.mem_append.1 hpart with hpart | hpart
  · exact not_slash_of_mem_segments a (by simp [ha, hpart])
  · rcases List.mem_cons.1 hpart with rfl | hpart
    · simp [hx, hy]
    · exact not_slash_of_mem_segments b (by simp [hb, hpart])

theorem segments_append_slash (a b : String) :
    segments (a ++ "/" ++ b) = segments a ++ segments b := by
  simp only [segments, Text.splitAt_eq_splitOn, String.toList_append]
  rw [show "/".toList = ['/'] from rfl, List.append_assoc, List.singleton_append,
    List.splitOn_append_cons_self, List.map_append]

/-- A path is absolute if an empty segment stands before others. -/
theorem isAbsolute_iff (path : String) :
    isAbsolute path = true ↔ ∃ rest, rest ≠ [] ∧ segments path = "" :: rest := by
  simp only [isAbsolute, beq_iff_eq, segments, Text.splitAt_eq_splitOn]
  cases path.toList with
  | nil => simp
  | cons c text =>
    rw [List.splitOn_cons_eq_if_modifyHead]
    by_cases hc : c = '/'
    · simp [hc]
    · cases hs : text.splitOn '/' <;> simp [hc]

/-! ## Components -/

theorem component?_eq_none_iff (segment : String) : component? segment = none ↔ segment = "" ∨ segment = "." := by
  unfold component?
  split <;> simp_all

/-- The component before those of the segments: the root, or the dot that a relative path starts with. -/
def lead (path : String) : List Component :=
  if isAbsolute path then [.root] else if (segments path).head? = some "." then [.current] else []

theorem lead_absolute {path : String} {rest : List String} (h : segments path = "" :: rest)
    (hrest : rest ≠ []) : lead path = [.root] := by
  have ha : isAbsolute path = true := (isAbsolute_iff path).2 ⟨rest, hrest, h⟩
  simp [lead, ha]

theorem lead_relative {path first : String} {rest : List String}
    (h : segments path = first :: rest) (habs : first = "" → rest = []) :
    lead path = if first = "." then [.current] else [] := by
  have ha : ¬ isAbsolute path = true := by
    rw [isAbsolute_iff]
    rintro ⟨rest', hne, h'⟩
    rw [h] at h'
    obtain ⟨rfl, rfl⟩ := List.cons.inj h'
    exact hne (habs rfl)
  simp [lead, ha, h]

theorem components_eq (path : String) :
    components path = lead path ++ (segments path).filterMap component? := by
  unfold components lead
  cases h : segments path with
  | nil => exact absurd h (segments_ne_nil path)
  | cons first rest =>
    by_cases ha : isAbsolute path = true
    · obtain ⟨rest', -, h'⟩ := (isAbsolute_iff path).1 ha
      obtain ⟨rfl, rfl⟩ : first = "" ∧ rest = rest' := by simpa [h] using h'
      simp [ha, component?]
    · by_cases hd : first = "."
      · subst hd
        simp [ha, component?]
      · cases hc : component? first <;> simp [ha, hd, hc]

/-- A text that can be the name of a file. -/
structure IsName (text : String) : Prop where
  ne_empty : text ≠ ""
  ne_dot : text ≠ "."
  ne_dots : text ≠ ".."
  no_slash : '/' ∉ text.toList

theorem component?_eq_name {text : String} (hempty : text ≠ "") (hdot : text ≠ ".")
    (hdots : text ≠ "..") : component? text = some (.name text) := by
  unfold component?
  split
  · exact absurd rfl hempty
  · exact absurd rfl hdot
  · exact absurd rfl hdots
  · rfl

theorem IsName.component? {text : String} (h : IsName text) : component? text = some (.name text) :=
  component?_eq_name h.ne_empty h.ne_dot h.ne_dots

theorem isName_of_component? {path segment text : String} (hs : segment ∈ segments path)
    (h : component? segment = some (.name text)) : text = segment ∧ IsName text := by
  unfold component? at h
  split at h
  · cases h
  · cases h
  · cases h
  · rename_i h1 h2 h3
    cases h
    exact ⟨rfl, h1, h2, h3, not_slash_of_mem_segments path hs⟩

/-- The root is no segment. -/
theorem root_notMem_filterMap (segments : List String) : .root ∉ segments.filterMap component? := by
  intro h
  obtain ⟨segment, -, hsegment⟩ := List.mem_filterMap.1 h
  unfold component? at hsegment
  split at hsegment <;> cases hsegment

/-! ## Normal form -/

/-- What can stand before the names of a path in normal form. -/
def stems : List (List Component) := [[], [.root], [.parent], [.root, .parent]]

/-- Components that `resolve` leaves as they are. -/
def NormalComponents (components : List Component) : Prop :=
  ∃ stem ∈ stems, ∃ names : List String, (∀ name ∈ names, IsName name) ∧
    components = stem ++ names.map .name

/-- What `resolve` has kept after some components, the last one first. -/
theorem resolveStep_normal {kept : List Component} {component : Component}
    (h : NormalComponents kept.reverse) (hroot : component = .root → kept = [])
    (hname : ∀ text, component = .name text → IsName text) :
    NormalComponents (resolveStep kept component).reverse := by
  obtain ⟨stem, hstem, names, hnames, hkept⟩ := h
  cases component with
  | root =>
    rw [hroot rfl]
    exact ⟨[.root], by simp [stems], [], by simp, rfl⟩
  | current => exact ⟨stem, hstem, names, hnames, hkept⟩
  | name text =>
    refine ⟨stem, hstem, names ++ [text], ?_, by simp [resolveStep, hkept]⟩
    intro name hname'
    rcases List.mem_append.1 hname' with h | h
    · exact hnames name h
    · rw [List.mem_singleton.1 h]; exact hname text rfl
  | parent =>
    rcases List.eq_nil_or_concat names with rfl | ⟨front, last, rfl⟩
    · -- no name to take away: what happens depends on the stem
      have hkept' : kept = stem.reverse := by simpa using congrArg List.reverse hkept
      simp only [stems, List.mem_cons, List.not_mem_nil, or_false] at hstem
      rcases hstem with rfl | rfl | rfl | rfl <;> subst hkept'
      · exact ⟨[.parent], by simp [stems], [], by simp, rfl⟩
      · exact ⟨[.root, .parent], by simp [stems], [], by simp, rfl⟩
      · exact ⟨[], by simp [stems], [], by simp, rfl⟩
      · exact ⟨[.root], by simp [stems], [], by simp, rfl⟩
    · have hkept' : kept = .name last :: (stem ++ front.map Component.name).reverse := by
        simpa using congrArg List.reverse hkept
      refine ⟨stem, hstem, front, fun name h => hnames name (by simp [h]), ?_⟩
      simp [hkept', resolveStep]

theorem foldl_resolveStep_normal : ∀ (components kept : List Component),
    NormalComponents kept.reverse → .root ∉ components →
    (∀ text, .name text ∈ components → IsName text) →
    NormalComponents (components.foldl resolveStep kept).reverse
  | [], _, h, _, _ => h
  | component :: rest, kept, h, hroot, hname => by
    simp only [List.mem_cons, not_or] at hroot
    refine foldl_resolveStep_normal rest _ (resolveStep_normal h ?_ ?_) hroot.2 ?_
    · intro hc; exact absurd hc.symm hroot.1
    · intro text hc; exact hname text (by simp [hc])
    · intro text ht; exact hname text (by simp [ht])

theorem resolve_normal (path : String) : NormalComponents (resolve (components path)) := by
  have hname : ∀ text, .name text ∈ (segments path).filterMap component? → IsName text := by
    intro text h
    obtain ⟨segment, hs, hc⟩ := List.mem_filterMap.1 h
    exact (isName_of_component? hs hc).2
  have hstart : NormalComponents ((lead path).foldl resolveStep []).reverse := by
    unfold lead
    split
    · exact ⟨[.root], by simp [stems], [], by simp, rfl⟩
    · split <;> exact ⟨[], by simp [stems], [], by simp, rfl⟩
  unfold resolve
  rw [components_eq, List.foldl_append]
  exact foldl_resolveStep_normal _ _ hstart (root_notMem_filterMap _) hname

theorem foldl_resolveStep_names : ∀ (names : List String) (kept : List Component),
    (names.map Component.name).foldl resolveStep kept = (names.map Component.name).reverse ++ kept
  | [], _ => rfl
  | name :: names, kept => by
    simp [resolveStep, foldl_resolveStep_names names]

theorem NormalComponents.resolve_eq {components : List Component} (h : NormalComponents components) :
    resolve components = components := by
  obtain ⟨stem, hstem, names, -, rfl⟩ := h
  have hs : (stem.foldl resolveStep []) = stem.reverse := by
    simp only [stems, List.mem_cons, List.not_mem_nil, or_false] at hstem
    rcases hstem with rfl | rfl | rfl | rfl <;> rfl
  simp [resolve, List.foldl_append, hs, foldl_resolveStep_names]

/-- The texts between the slashes of a path with the given components. -/
def textsOf : List Component → List String
  | [] => [""]
  | [.root] => ["", ""]
  | components => components.map Component.text

theorem textsOf_eq {components : List Component} (hne : components ≠ []) (hroot : components ≠ [.root]) :
    textsOf components = components.map Component.text := by
  unfold textsOf
  split
  · exact absurd rfl hne
  · exact absurd rfl hroot
  · rfl

theorem map_text_names (names : List String) :
    (names.map Component.name).map Component.text = names := by
  simp [Function.comp_def, Component.text]

theorem render_eq (components : List Component) :
    render components = "/".intercalate (textsOf components) := by
  unfold render textsOf
  split <;> split <;> simp_all

theorem NormalComponents.no_slash {components : List Component} (h : NormalComponents components) :
    ∀ text ∈ textsOf components, '/' ∉ text.toList := by
  have hall : ∀ component ∈ components, '/' ∉ component.text.toList := by
    obtain ⟨stem, hstem, names, hnames, rfl⟩ := h
    intro component hc
    rcases List.mem_append.1 hc with hc | hc
    · cases component with
      | root | current | parent => decide
      | name text =>
        simp only [stems, List.mem_cons, List.not_mem_nil, or_false] at hstem
        rcases hstem with rfl | rfl | rfl | rfl <;> simp at hc
    · obtain ⟨name, hn, rfl⟩ := List.mem_map.1 hc
      exact (hnames name hn).no_slash
  unfold textsOf
  split
  · simp
  · simp
  · simpa using hall

theorem NormalComponents.segments_render {components : List Component}
    (h : NormalComponents components) : segments (render components) = textsOf components := by
  rw [render_eq, segments_intercalate _ _ h.no_slash]
  unfold textsOf
  split <;> simp_all

theorem filterMap_names {names : List String} (h : ∀ name ∈ names, IsName name) :
    names.filterMap component? = names.map Component.name := by
  induction names with
  | nil => rfl
  | cons name names ih =>
    rw [List.filterMap_cons_some (h name (by simp)).component?,
      ih fun other ho => h other (by simp [ho]), List.map_cons]

/-- The components of a normal form are read back from its text. -/
theorem NormalComponents.components_render {components : List Component}
    (h : NormalComponents components) : Path.components (render components) = components := by
  have hs := h.segments_render
  rw [components_eq, hs]
  obtain ⟨stem, hstem, names, hnames, rfl⟩ := h
  simp only [stems, List.mem_cons, List.not_mem_nil, or_false] at hstem
  rcases hstem with rfl | rfl | rfl | rfl
  · cases names with
    | nil =>
      rw [lead_relative hs (fun _ => rfl)]
      rfl
    | cons name names =>
      have hname := hnames name (by simp)
      have ht : textsOf ([] ++ (name :: names).map Component.name) = name :: names := by
        rw [textsOf_eq (by simp) (by simp), List.nil_append, map_text_names]
      rw [ht] at hs ⊢
      rw [lead_relative hs (fun h => absurd h hname.ne_empty), if_neg hname.ne_dot,
        filterMap_names hnames]
  · cases names with
    | nil =>
      rw [lead_absolute hs (by simp)]
      rfl
    | cons name names =>
      have ht : textsOf ([.root] ++ (name :: names).map Component.name) = "" :: name :: names := by
        rw [textsOf_eq (by simp) (by simp), List.map_append, map_text_names]; rfl
      rw [ht] at hs ⊢
      rw [lead_absolute hs (by simp), List.filterMap_cons_none rfl, filterMap_names hnames]
  · have ht : textsOf ([.parent] ++ names.map Component.name) = ".." :: names := by
      rw [textsOf_eq (by simp) (by simp), List.map_append, map_text_names]; rfl
    rw [ht] at hs ⊢
    rw [lead_relative hs (by simp), if_neg (by decide),
      List.filterMap_cons_some (show component? ".." = some .parent from rfl), filterMap_names hnames]
    rfl
  · have ht : textsOf ([.root, .parent] ++ names.map Component.name) = "" :: ".." :: names := by
      rw [textsOf_eq (by simp) (by simp), List.map_append, map_text_names]; rfl
    rw [ht] at hs ⊢
    rw [lead_absolute hs (by simp), List.filterMap_cons_none rfl,
      List.filterMap_cons_some (show component? ".." = some .parent from rfl), filterMap_names hnames]
    rfl

/-- A path that taking the normal form leaves as it is. -/
def IsNormal (path : String) : Prop := normalize path = path

theorem components_normalize (path : String) :
    components (normalize path) = resolve (components path) :=
  (resolve_normal path).components_render

theorem normalize_normal (path : String) : IsNormal (normalize path) := by
  have h : resolve (components (normalize path)) = resolve (components path) := by
    rw [components_normalize, (resolve_normal path).resolve_eq]
  exact congrArg render h

theorem IsNormal.components {path : String} (h : IsNormal path) :
    NormalComponents (Path.components path) := by
  rw [← h, components_normalize]
  exact resolve_normal path

theorem IsNormal.render {path : String} (h : IsNormal path) :
    Path.render (Path.components path) = path := by
  conv => rhs; rw [← h]
  rw [normalize, h.components.resolve_eq]

/-- Paths in normal form with the same components are the same. -/
theorem IsNormal.eq_of_components {a b : String} (ha : IsNormal a) (hb : IsNormal b)
    (h : Path.components a = Path.components b) : a = b := by
  rw [← ha.render, h, hb.render]

theorem NormalComponents.isNormal_render {components : List Component}
    (h : NormalComponents components) : IsNormal (Path.render components) := by
  have hr : resolve (Path.components (Path.render components)) = components := by
    rw [h.components_render, h.resolve_eq]
  exact congrArg Path.render hr

theorem textsOf_names (stem : List Component) {names : List String} (h : names ≠ []) :
    textsOf (stem ++ names.map Component.name) = stem.map Component.text ++ names := by
  rw [textsOf_eq, List.map_append, map_text_names]
  · simp [h]
  · cases names with
    | nil => exact absurd rfl h
    | cons name names => cases stem <;> simp

/-- Before its last segment a path in normal form has a stem and names. -/
theorem IsNormal.exists_segments {path : String} (h : IsNormal path) :
    ∃ stem ∈ stems, ∃ (names : List String) (last : String), (∀ name ∈ names, IsName name) ∧
      segments path = (stem.map Component.text ++ names) ++ [last] := by
  have hs := h.components.segments_render
  rw [h.render] at hs
  obtain ⟨stem, hstem, names, hnames, hc⟩ := h.components
  rw [hc] at hs
  rcases List.eq_nil_or_concat names with rfl | ⟨front, last, rfl⟩
  · simp only [stems, List.mem_cons, List.not_mem_nil, or_false] at hstem
    rcases hstem with rfl | rfl | rfl | rfl
    · exact ⟨[], by simp [stems], [], "", by simp, hs⟩
    · exact ⟨[.root], by simp [stems], [], "", by simp, hs⟩
    · exact ⟨[], by simp [stems], [], "..", by simp, hs⟩
    · exact ⟨[.root], by simp [stems], [], "..", by simp, hs⟩
  · rw [textsOf_names stem (by simp)] at hs
    exact ⟨stem, hstem, front, last, fun name hn => hnames name (by simp [hn]), by simpa using hs⟩

theorem isNormal_of_segments {path : String} {stem : List Component} {names : List String}
    (hstem : stem ∈ stems) (hne : names ≠ []) (hnames : ∀ name ∈ names, IsName name)
    (h : segments path = stem.map Component.text ++ names) : IsNormal path := by
  rw [← textsOf_names stem hne] at h
  rw [← intercalate_segments path, h, ← render_eq]
  exact NormalComponents.isNormal_render ⟨stem, hstem, names, hnames, rfl⟩

/-- A text that makes a name of whatever it stands behind. -/
structure IsNamePart (text : String) : Prop where
  no_slash : '/' ∉ text.toList
  not_dots : ∃ c ∈ text.toList, c ≠ '.'

theorem IsNamePart.isName_append {text : String} (h : IsNamePart text) {before : String}
    (hb : '/' ∉ before.toList) : IsName (before ++ text) := by
  obtain ⟨c, hc, hdot⟩ := h.not_dots
  have hmem : c ∈ (before ++ text).toList := by simp [hc]
  refine ⟨?_, ?_, ?_, by simp [hb, h.no_slash]⟩
  · intro he; simp [he] at hmem
  · intro he
    rw [he, show ".".toList = ['.'] from rfl, List.mem_singleton] at hmem
    exact hdot hmem
  · intro he
    rw [he, show "..".toList = ['.', '.'] from rfl] at hmem
    simp only [List.mem_cons, List.not_mem_nil, or_false, or_self] at hmem
    exact hdot hmem

theorem IsNamePart.isName {text : String} (h : IsNamePart text) : IsName text := by
  have hname : IsName ("" ++ text) := h.isName_append (by simp)
  rwa [String.empty_append] at hname

theorem IsNamePart.segments {text : String} (h : IsNamePart text) : Path.segments text = [text] := by
  have hs := segments_intercalate [text] (by simp) (by simpa using h.no_slash)
  rwa [String.intercalate_singleton] at hs

theorem IsNormal.append {path text : String} (h : IsNormal path) (ht : IsNamePart text) :
    IsNormal (path ++ text) := by
  obtain ⟨stem, hstem, names, last, hnames, hs⟩ := h.exists_segments
  have hlast : '/' ∉ last.toList := not_slash_of_mem_segments path (by simp [hs])
  have happ := segments_append hs ht.segments
  rw [List.append_assoc] at happ
  refine isNormal_of_segments hstem (by simp) ?_ happ
  intro name hn
  rcases List.mem_append.1 hn with hn | hn
  · exact hnames name hn
  · rw [List.mem_singleton.1 hn]; exact ht.isName_append hlast

theorem IsNormal.join {path text : String} (h : IsNormal path) (ht : IsNamePart text) :
    IsNormal (join path text) := by
  have hrel : ¬ isAbsolute text = true := by
    rw [isAbsolute_iff, ht.segments]
    rintro ⟨rest, hne, hr⟩
    exact hne (List.cons.inj hr).2.symm
  unfold Path.join
  split
  · rename_i hc
    have hempty : path = "" := by simpa [hrel] using hc
    have := h.append ht
    rwa [hempty, String.empty_append] at this
  · rename_i hc
    split
    · exact h.append ht
    · rename_i hslash
      have hs := h.components.segments_render
      obtain ⟨stem, hstem, names, hnames, hcs⟩ := h.components
      have hne : Path.components path ≠ [] := by
        intro he
        have := h.render
        rw [he] at this
        exact hc (by simp [← this, Path.render])
      have hroot : Path.components path ≠ [.root] := by
        intro he
        have := h.render
        rw [he] at this
        exact hslash (by simp [← this, Path.render])
      rw [h.render, textsOf_eq hne hroot, hcs, List.map_append, map_text_names] at hs
      have happ := segments_append_slash path text
      rw [hs, ht.segments, List.append_assoc] at happ
      refine isNormal_of_segments hstem (by simp) ?_ happ
      intro name hn
      rcases List.mem_append.1 hn with hn | hn
      · exact hnames name hn
      · rw [List.mem_singleton.1 hn]; exact ht.isName

end AssetAudit.Path
