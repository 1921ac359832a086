import AssetAudit.Proofs.PathForm

/-!
# Spellings of a path

Doubled slashes and dots give a path other spellings with the same components. What a walk reads off
a path does not tell them apart: the normal form of a path below it (`normalize_join_congr`), its own
below a directory (`normalize_join_path_congr`), the directory it stands in
(`components_directory_congr`) and its extension (`extension_congr`). A file keeps its extension at its
place below a directory (`extension_normalize_join`).
-/
namespace AssetAudit.Path

theorem components_eq_nil_iff (path : String) : components path = [] ↔ path = "" := by
  constructor
  · intro h
    rw [components_eq, List.append_eq_nil_iff, List.filterMap_eq_nil_iff] at h
    obtain ⟨hlead, hnone⟩ := h
    cases hs : segments path with
    | nil => exact absurd hs (segments_ne_nil path)
    | cons first rest =>
      have hfirst := (component?_eq_none_iff first).1 (hnone first (by simp [hs]))
      by_cases habs : first = "" → rest = []
      · rw [lead_relative hs habs] at hlead
        rcases hfirst with rfl | rfl
        · exact segments_inj (by rw [hs, habs rfl]; rfl)
        · simp at hlead
      · obtain ⟨rfl, hrest⟩ : first = "" ∧ rest ≠ [] := by simpa using habs
        rw [lead_absolute hs hrest] at hlead
        cases hlead
  · rintro rfl
    rfl

/-! ## Joining -/

theorem lead_congr {a b first : String} {r s : List String} (ha : segments a = first :: r)
    (hb : segments b = first :: s) (h : first = "" → (r = [] ↔ s = [])) : lead a = lead b := by
  by_cases habs : first = "" → r = []
  · rw [lead_relative ha habs, lead_relative hb fun he => (h he).1 (habs he)]
  · obtain ⟨rfl, hr⟩ : first = "" ∧ r ≠ [] := by simpa using habs
    rw [lead_absolute ha hr, lead_absolute hb (fun he => hr ((h rfl).2 he))]

/-- What a relative path adds behind a directory. -/
theorem components_join {base path : String} (hbase : base ≠ "") (hrel : isAbsolute path = false) :
    components (join base path) = components base ++ (segments path).filterMap component? := by
  obtain ⟨front, hfront, hsegs⟩ : ∃ front, front ≠ [] ∧
      segments (join base path) = front ++ segments path ∧
      (segments base = front ∨ segments base = front ++ [""]) := by
    unfold join
    rw [if_neg (by simp [hrel, hbase])]
    split
    · rename_i hslash
      obtain ⟨text, htext⟩ : ∃ text, base = text ++ "/" := by
        rw [beq_iff_eq, List.getLast?_eq_some_iff] at hslash
        obtain ⟨text, htext⟩ := hslash
        exact ⟨String.ofList text, by rw [← String.toList_inj, htext]; simp⟩
      refine ⟨segments text, segments_ne_nil text, ?_, Or.inr ?_⟩
      · rw [htext, segments_append_slash]
      · rw [htext, ← String.append_empty (s := text ++ "/"), segments_append_slash]
        rfl
    · exact ⟨segments base, segments_ne_nil base, segments_append_slash base path, Or.inl rfl⟩
  obtain ⟨first, rest, rfl⟩ := List.exists_cons_of_ne_nil hfront
  have hfilter : (segments base).filterMap component? = (first :: rest).filterMap component? := by
    rcases hsegs.2 with h | h
    · rw [h]
    · rw [h, List.filterMap_append]
      simp [component?]
  have hlead : lead (join base path) = lead base := by
    rcases hsegs.2 with h | h
    · refine lead_congr hsegs.1 h fun hf => ?_
      have hrest : rest ≠ [] := by
        intro hr
        exact hbase (segments_inj (by rw [h, hf, hr]; rfl))
      simp [hrest, segments_ne_nil]
    · exact lead_congr hsegs.1 h fun _ => by simp [segments_ne_nil]
  rw [components_eq, components_eq base, hlead, hsegs.1, hfilter, List.filterMap_append,
    List.append_assoc]

theorem normalize_join_congr {a b : String} (h : components a = components b) (path : String) :
    normalize (join a path) = normalize (join b path) := by
  by_cases habs : isAbsolute path = true
  · simp [join, habs]
  · have hrel : isAbsolute path = false := by simpa using habs
    by_cases ha : a = ""
    · have hb : b = "" := by rw [← components_eq_nil_iff, ← h, ha]; rfl
      rw [ha, hb]
    · have hb : b ≠ "" := by
        intro hb
        rw [hb, show components "" = [] from rfl, components_eq_nil_iff] at h
        exact ha h
      unfold normalize
      rw [components_join ha hrel, components_join hb hrel, h]

theorem component?_ne {segment : String} {component : Component}
    (h : component? segment = some component) : component ≠ .root ∧ component ≠ .current := by
  unfold component? at h
  split at h <;> cases h <;> simp

/-- The components of the segments are those behind the lead. -/
theorem filterMap_segments (path : String) :
    (segments path).filterMap component? =
      (components path).filter fun component => component ≠ .root ∧ component ≠ .current := by
  have hlead : (lead path).filter (fun component => component ≠ .root ∧ component ≠ .current) = [] := by
    unfold lead
    split
    · rfl
    · split <;> rfl
  have hrest : ∀ component ∈ (segments path).filterMap component?,
      decide (component ≠ .root ∧ component ≠ .current) = true := by
    intro component hmem
    obtain ⟨segment, -, hsegment⟩ := List.mem_filterMap.1 hmem
    exact decide_eq_true (component?_ne hsegment)
  rw [components_eq, List.filter_append, hlead, List.nil_append, List.filter_eq_self.2 hrest]

theorem isAbsolute_iff_mem (path : String) : isAbsolute path = true ↔ .root ∈ components path := by
  rw [components_eq, List.mem_append, or_iff_left (root_notMem_filterMap _)]
  unfold lead
  split
  · simp [*]
  · split <;> simp [*]

/-- Spellings of a path stand for the same place below a directory. -/
theorem normalize_join_path_congr {a b : String} (h : components a = components b) (base : String) :
    normalize (join base a) = normalize (join base b) := by
  have habsolute : isAbsolute a = isAbsolute b := by
    rw [Bool.eq_iff_iff, isAbsolute_iff_mem, isAbsolute_iff_mem, h]
  by_cases hsame : (isAbsolute b || base.isEmpty) = true
  · unfold join normalize
    rw [habsolute, if_pos hsame, if_pos hsame, h]
  · simp only [Bool.or_eq_true, String.isEmpty_iff, not_or, Bool.not_eq_true] at hsame
    unfold normalize
    rw [components_join hsame.2 (habsolute.trans hsame.1), components_join hsame.2 hsame.1,
      filterMap_segments, filterMap_segments, h]

/-! ## Parts of a path -/

/-- What `trimSegments` takes away. -/
theorem trimSegments_spec : ∀ segments : List String, segments ≠ [] →
    ∃ blank first rest, segments = blank ++ first :: rest ∧ trimSegments segments = first :: rest ∧
      (∀ segment ∈ blank, component? segment = none) ∧ (rest ≠ [] → component? first ≠ none)
  | [], h => absurd rfl h
  | [first], _ => ⟨[], first, [], rfl, rfl, by simp, by simp⟩
  | segment :: next :: rest, _ => by
    unfold trimSegments
    split
    · rename_i hb
      obtain ⟨blank, first, rest', h1, h2, h3, h4⟩ := trimSegments_spec (next :: rest) (by simp)
      refine ⟨segment :: blank, first, rest', by rw [h1]; rfl, h2, ?_, h4⟩
      intro other ho
      rcases List.mem_cons.1 ho with rfl | ho
      · rw [component?_eq_none_iff]; simpa using hb
      · exact h3 other ho
    · rename_i hb
      refine ⟨[], segment, next :: rest, rfl, rfl, by simp, fun _ hnone => ?_⟩
      rw [component?_eq_none_iff] at hnone
      exact hb (by simpa using hnone)

theorem filterMap_blank {blank : List String} (h : ∀ segment ∈ blank, component? segment = none) :
    blank.reverse.filterMap component? = [] := by
  rw [List.filterMap_eq_nil_iff]
  intro segment hs
  exact h segment (List.mem_reverse.1 hs)

/-- The first segments of a path, as a path. -/
theorem components_front {path : String} {front rest : List String} (hfront : front ≠ [])
    (hrest : rest ≠ []) (hs : segments path = front ++ rest) :
    components (if isAbsolute path && ("/".intercalate front).isEmpty then "/"
      else "/".intercalate front) = lead path ++ front.filterMap component? := by
  have htext : segments ("/".intercalate front) = front := by
    refine segments_intercalate _ hfront fun part hp => not_slash_of_mem_segments path ?_
    rw [hs]
    exact List.mem_append_left _ hp
  generalize "/".intercalate front = text at htext ⊢
  by_cases htop : isAbsolute path = true ∧ text = ""
  · obtain ⟨ha, rfl⟩ := htop
    have hslash : components "/" = [.root] := by decide
    have hempty : (segments "").filterMap component? = [] := by decide
    rw [← htext, hempty]
    simp [lead, ha, hslash]
  · rw [if_neg (by simpa using htop), components_eq, htext]
    congr 1
    obtain ⟨first, others, rfl⟩ := List.exists_cons_of_ne_nil hfront
    refine lead_congr htext hs fun hf => ?_
    subst hf
    have hothers : others ≠ [] := by
      rintro rfl
      refine htop ⟨(isAbsolute_iff path).2 ⟨_, hrest, hs⟩, segments_inj ?_⟩
      rw [htext]; rfl
    simp [hothers]

theorem parent?_eq {path x : String} {above : List String} {last : Component}
    (h : (components path).getLast? = some last) (hroot : last ≠ .root)
    (htrim : trimSegments (segments path).reverse = x :: above) :
    let text := "/".intercalate (trimSegments above).reverse
    parent? path = some (if isAbsolute path && text.isEmpty then "/" else text) := by
  intro text
  have hparent : parent? path = if isAbsolute path && text.isEmpty then some "/" else some text := by
    unfold parent?
    rw [h, htrim]
    cases last with
    | root => exact absurd rfl hroot
    | current | parent | name _ => rfl
  rw [hparent]
  split <;> rfl

/-- The path above another has its components but the last. -/
theorem components_parent {path : String} {last : Component}
    (h : (components path).getLast? = some last) (hroot : last ≠ .root) :
    ∃ text, parent? path = some text ∧ components text = (components path).dropLast := by
  obtain ⟨blank, x, above, hsegs, htrim, hblank, hx⟩ :=
    trimSegments_spec (segments path).reverse (by simp [segments_ne_nil])
  refine ⟨_, parent?_eq h hroot htrim, ?_⟩
  have hsegs' : segments path = above.reverse ++ x :: blank.reverse := by
    have := congrArg List.reverse hsegs
    simpa using this
  have hcomp : components path =
      lead path ++ (above.reverse.filterMap component? ++ (component? x).toList) := by
    rw [components_eq, hsegs', List.filterMap_append, List.filterMap_cons]
    cases component? x <;> simp [filterMap_blank hblank]
  cases above with
  | nil =>
    have hrel : ¬ isAbsolute path = true := by
      intro ha
      obtain ⟨rest, -, hr⟩ := (isAbsolute_iff path).1 ha
      obtain ⟨rfl, -⟩ : x = "" ∧ _ := by simpa [hsegs'] using hr
      have hl : lead path = [.root] := by simp [lead, ha]
      rw [hcomp, hl] at h
      exact hroot (by simpa [component?] using h.symm)
    have hl : lead path = if x = "." then [.current] else [] := by
      simp [lead, hrel, hsegs']
    rw [hcomp, hl]
    by_cases hdot : x = "."
    · simp [hrel, hdot, component?, components_eq_nil_iff, trimSegments]
    · cases component? x <;> simp [hrel, hdot, components_eq_nil_iff, trimSegments]
  | cons next above =>
    obtain ⟨c, hc⟩ := Option.ne_none_iff_exists'.1 (hx (by simp))
    obtain ⟨blank', y, above', hsegs2, htrim2, hblank', -⟩ :=
      trimSegments_spec (next :: above) (by simp)
    have hab : (next :: above).reverse = (y :: above').reverse ++ blank'.reverse := by
      rw [hsegs2]; simp
    have hfront : segments path = (y :: above').reverse ++ (blank'.reverse ++ x :: blank.reverse) := by
      rw [hsegs', hab, List.append_assoc]
    rw [htrim2, components_front (by simp) (by simp) hfront, hcomp, hc, hab, List.filterMap_append,
      filterMap_blank hblank', List.append_nil, Option.toList_some, ← List.append_assoc,
      List.dropLast_concat]

theorem components_directory_congr {a b : String} (h : components a = components b) :
    components (directory a) = components (directory b) := by
  by_cases hl : ∃ last, (components a).getLast? = some last ∧ last ≠ .root
  · obtain ⟨last, hlast, hroot⟩ := hl
    obtain ⟨s, hs, hcs⟩ := components_parent hlast hroot
    obtain ⟨t, ht, hct⟩ := components_parent (h ▸ hlast) hroot
    rw [directory, directory, hs, ht]
    simp only [Option.getD_some]
    rw [hcs, hct, h]
  · have hnone : ∀ path, (components path).getLast? = (components a).getLast? →
        parent? path = none := by
      intro path hp
      unfold parent?
      rw [hp]
      cases hg : (components a).getLast? with
      | none => rfl
      | some last =>
        cases last with
        | root => rfl
        | current | parent | name _ => exact absurd ⟨_, hg, by simp⟩ hl
    rw [directory, directory, hnone a rfl, hnone b (by rw [h])]

theorem fileName?_eq_some_iff {path name : String} :
    fileName? path = some name ↔ (components path).getLast? = some (.name name) := by
  unfold fileName?
  split
  · rename_i text hlast
    simp [hlast]
  · rename_i hother
    simp only [reduceCtorEq, false_iff]
    exact hother name

/-- The last component of a path is kept by its normal form if it is a name. -/
theorem fileName?_normalize {path name : String} (h : fileName? path = some name) :
    fileName? (normalize path) = some name := by
  obtain ⟨front, hfront⟩ := List.getLast?_eq_some_iff.1 (fileName?_eq_some_iff.1 h)
  rw [fileName?_eq_some_iff, components_normalize, resolve, hfront, List.foldl_append,
    List.getLast?_reverse]
  rfl

theorem fileName?_join {base path name : String} (h : fileName? path = some name) :
    fileName? (join base path) = some name := by
  by_cases hsame : isAbsolute path = true ∨ base = ""
  · have hjoin : join base path = path := by
      unfold join
      rw [if_pos (by simpa using hsame)]
    rw [hjoin, h]
  · rw [not_or, Bool.not_eq_true] at hsame
    obtain ⟨habsolute, hbase⟩ := hsame
    rw [fileName?_eq_some_iff, components_eq, List.getLast?_append] at h
    rw [fileName?_eq_some_iff, components_join hbase habsolute, List.getLast?_append]
    -- the lead of a relative path is at most a dot, so the name stands among the segments
    cases hlast : ((segments path).filterMap component?).getLast? with
    | some last =>
      rw [hlast, Option.some_or] at h
      rw [Option.some_or, h]
    | none =>
      rw [hlast, Option.none_or, lead, habsolute, if_neg Bool.false_ne_true] at h
      split at h <;> simp at h

theorem extension_congr {a b : String} (h : components a = components b) :
    extension a = extension b := by
  simp only [extension, extension?, fileName?, h]

theorem fileName?_append (path : String) {text : String} (h : IsNamePart text) :
    ∃ stem, fileName? (path ++ text) = some (stem ++ text) := by
  obtain ⟨before, last, hs⟩ : ∃ before last, segments path = before ++ [last] :=
    ⟨_, _, (List.dropLast_concat_getLast (segments_ne_nil path)).symm⟩
  have hlast : '/' ∉ last.toList := not_slash_of_mem_segments path (by simp [hs])
  refine ⟨last, ?_⟩
  rw [fileName?_eq_some_iff, components_eq, segments_append hs h.segments, List.filterMap_append,
    List.filterMap_cons_some (h.isName_append hlast).component?]
  simp

/-- What follows the last dot is the extension, unless the file name starts with that dot. -/
theorem extension_append (path : String) {back : List Char} (hdot : '.' ∉ back)
    (hpart : IsNamePart (String.ofList ('.' :: back))) :
    extension (path ++ String.ofList ('.' :: back)) = "" ∨
      extension (path ++ String.ofList ('.' :: back)) = "." ++ Text.lowercase (String.ofList back) := by
  obtain ⟨stem, hstem⟩ := fileName?_append path hpart
  unfold extension extension?
  rw [hstem]
  simp only [String.toList_append, String.toList_ofList, Text.splitLast?_append _ hdot]
  split
  · rename_i text htext
    split at htext
    · cases htext
    · cases htext
      exact Or.inr rfl
  · exact Or.inl rfl

/-- A file with an extension has it at its place too. -/
theorem extension_normalize_join (base : String) {path : String} (h : extension path ≠ "") :
    extension (normalize (join base path)) = extension path := by
  cases hname : fileName? path with
  | none => simp [extension, extension?, hname] at h
  | some name =>
    have hplace : fileName? (normalize (join base path)) = some name :=
      fileName?_normalize (fileName?_join hname)
    simp only [extension, extension?, hplace, hname]

end AssetAudit.Path
