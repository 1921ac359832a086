import AssetAudit.Dependency.Specifier
import AssetAudit.Proofs.PathSpelling
import Mathlib.Data.List.TakeWhile
import Mathlib.Logic.ExistsUnique

/-!
# Where a specifier leads

A specifier leads to a file in two steps. First a path is made of it (`IsCandidate`): by the longest
alias that stands for its first segments, or by its leading dot or slash. A specifier with none of
these names a package and leads nowhere. Then the first file among the path, the path with each
extension and the index files of the path is taken (`IsFirstFile`).

Aliases are compared by their bytes, but two that stand for one specifier both start it, so the longer
one in bytes is the longer one in characters, and of the same length there is one only
(`byteSize_lt_iff`). `chosen_matchingAlias?` follows the search through the table.
-/
namespace AssetAudit

namespace Path

/-- A path below another, whatever that one ends with. -/
theorem components_append_slash {base : String} (hbase : base ≠ "") (rest : String) :
    components (base ++ "/" ++ rest) = components base ++ (segments rest).filterMap component? := by
  have hsegments := segments_append_slash base rest
  obtain ⟨first, more, hfirst⟩ := List.exists_cons_of_ne_nil (segments_ne_nil base)
  have hlead : lead (base ++ "/" ++ rest) = lead base := by
    rw [hfirst, List.cons_append] at hsegments
    refine lead_congr hsegments hfirst fun hempty => ?_
    have hmore : more ≠ [] := by
      rintro rfl
      exact hbase (segments_inj (by rw [hfirst, hempty]; rfl))
    simp [hmore]
  rw [components_eq, components_eq base, hlead, hsegments, List.filterMap_append, List.append_assoc]

/-- A text behind a path, at least a slash apart. -/
def below (base rest : String) : String := if base = "" then rest else base ++ "/" ++ rest

/-- A text that does not start with a slash stays below the path it is joined to. -/
theorem normalize_below (base : String) {rest : String} (hrest : rest.toList.head? ≠ some '/') :
    normalize (if rest.isEmpty then base else join base rest) = normalize (below base rest) := by
  have hrelative : isAbsolute rest = false := by simpa [isAbsolute] using hrest
  unfold below
  by_cases hbase : base = ""
  · rw [if_pos hbase, hbase]
    split
    · rename_i hempty
      rw [String.isEmpty_iff.1 hempty]
    · simp [join]
  · rw [if_neg hbase]
    unfold normalize
    rw [components_append_slash hbase]
    split
    · rename_i hempty
      rw [String.isEmpty_iff.1 hempty, show (segments "").filterMap component? = [] from rfl,
        List.append_nil]
    · rw [components_join hbase hrelative]

end Path

namespace Dependency

/-! ## Aliases -/

/-- An alias stands for a specifier: for all of it, or for segments at its start. -/
def StandsFor (key specifier : String) : Prop :=
  key ≠ "" ∧ (specifier = key ∨ key.toList.getLast? = some '/' ∧ key.toList <+: specifier.toList ∨
    (key ++ "/").toList <+: specifier.toList)

theorem StandsFor.isPrefix {key specifier : String} (h : StandsFor key specifier) :
    key.toList <+: specifier.toList := by
  obtain ⟨-, rfl | ⟨-, hstarts⟩ | hstarts⟩ := h
  · exact List.prefix_rfl
  · exact hstarts
  · rw [String.toList_append] at hstarts
    exact (List.prefix_append _ _).trans hstarts

theorem aliasMatches_iff {specifier key : String} :
    aliasMatches specifier.toList key.toList = true ↔ StandsFor key specifier := by
  unfold aliasMatches StandsFor
  rw [Bool.and_eq_true, Bool.not_eq_true', List.isEmpty_eq_false_iff, Ne, String.toList_eq_nil_iff]
  refine and_congr_right fun _ => ?_
  cases hafter : Text.after? key.toList specifier.toList with
  | none =>
    have hnot : ¬key.toList <+: specifier.toList := by
      rintro ⟨rest, hrest⟩
      rw [Text.after?_eq_some_iff.2 hrest.symm] at hafter
      cases hafter
    constructor
    · intro h
      cases h
    · rintro (rfl | ⟨-, h⟩ | h)
      · exact absurd List.prefix_rfl hnot
      · exact absurd h hnot
      · rw [String.toList_append] at h
        exact absurd ((List.prefix_append _ _).trans h) hnot
  | some rest =>
    have hrest := Text.after?_eq_some_iff.1 hafter
    have hequal : specifier = key ↔ rest = [] := by
      rw [← String.toList_inj, hrest, List.append_right_eq_self]
    have hslash : (key ++ "/").toList <+: specifier.toList ↔ rest.head? = some '/' := by
      rw [String.toList_append, hrest, List.prefix_append_right_inj]
      cases rest with
      | nil => simp
      | cons c rest => simp [eq_comm]
    have hstarts : key.toList <+: specifier.toList := hrest ▸ List.prefix_append _ _
    rw [hequal, hslash]
    simp [hstarts, or_assoc]

/-- Of two texts that start a third, the longer one in bytes is the longer one in characters. -/
theorem byteSize_lt_iff {a b text : String} (ha : a.toList <+: text.toList)
    (hb : b.toList <+: text.toList) : a.utf8ByteSize < b.utf8ByteSize ↔ a.length < b.length := by
  have hle : ∀ {a b : String}, a.toList <+: b.toList →
      a.utf8ByteSize ≤ b.utf8ByteSize ∧ a.length ≤ b.length ∧
        (a.utf8ByteSize < b.utf8ByteSize ↔ a.length < b.length) := by
    rintro a b ⟨rest, hrest⟩
    obtain rfl : b = a ++ String.ofList rest := by
      rw [← String.toList_inj, ← hrest, String.toList_append, String.toList_ofList]
    have hzero : (String.ofList rest).utf8ByteSize = 0 ↔ (String.ofList rest).length = 0 := by
      rw [String.utf8ByteSize_eq_zero_iff, ← String.length_toList, List.length_eq_zero_iff,
        String.toList_eq_nil_iff]
    rw [String.utf8ByteSize_append, String.length_append]
    omega
  rcases List.prefix_or_prefix_of_prefix ha hb with h | h
  · exact (hle h).2.2
  · have := hle h
    omega

/-- The alias of a table for a specifier and its target: the longest one that stands for it. A key that
the table holds twice has the later target. -/
structure IsAlias (aliases : List (String × String)) (specifier key target : String) : Prop where
  stands : StandsFor key specifier
  target : aliases.reverse.lookup key = some target
  longest : ∀ entry ∈ aliases, StandsFor entry.1 specifier →
    entry.1 = key ∨ entry.1.length < key.length

theorem IsAlias.mem {aliases : List (String × String)} {specifier key target : String}
    (h : IsAlias aliases specifier key target) : (key, target) ∈ aliases := by
  obtain ⟨before, after, hsplit, -⟩ := List.lookup_eq_some_iff.1 h.target
  rw [← List.mem_reverse, hsplit]
  simp

theorem IsAlias.unique {aliases : List (String × String)} {specifier key target key' target' : String}
    (h : IsAlias aliases specifier key target) (h' : IsAlias aliases specifier key' target') :
    key = key' ∧ target = target' := by
  have hkey : key = key' := by
    rcases h'.longest _ h.mem h.stands with heq | hlt
    · exact heq
    · rcases h.longest _ h'.mem h'.stands with heq | hlt'
      · exact heq.symm
      · exact absurd hlt (Nat.lt_asymm hlt')
  subst hkey
  exact ⟨rfl, Option.some.inj (h.target.symm.trans h'.target)⟩

/-- What the search through a table has found when it has seen these aliases. -/
def Chosen (aliases : List (String × String)) (specifier : String) : Option (String × String) → Prop
  | none => ∀ entry ∈ aliases, ¬StandsFor entry.1 specifier
  | some (key, target) => IsAlias aliases specifier key target

/-- What one more alias changes. -/
def keepLonger (specifier : String) (best : Option (String × String)) (entry : String × String) :
    Option (String × String) :=
  if aliasMatches specifier.toList entry.1.toList then
    match best with
    | some (other, _) => if entry.1.utf8ByteSize < other.utf8ByteSize then best else some entry
    | none => some entry
  else best

theorem IsAlias.keep {aliases : List (String × String)} {specifier key target : String}
    {entry : String × String} (h : IsAlias aliases specifier key target)
    (hentry : StandsFor entry.1 specifier → entry.1.length < key.length) :
    IsAlias (aliases ++ [entry]) specifier key target where
  stands := h.stands
  target := by
    have hne : (key == entry.1) = false := by
      rw [beq_eq_false_iff_ne]
      rintro rfl
      exact absurd (hentry h.stands) (Nat.lt_irrefl _)
    rw [List.reverse_append, List.reverse_singleton, List.singleton_append, List.lookup_cons, hne]
    exact h.target
  longest other ho hother := by
    rcases List.mem_append.1 ho with ho | ho
    · exact h.longest other ho hother
    · rw [List.mem_singleton.1 ho] at hother ⊢
      exact Or.inr (hentry hother)

theorem isAlias_last {aliases : List (String × String)} {specifier : String}
    {entry : String × String} (hentry : StandsFor entry.1 specifier)
    (h : ∀ other ∈ aliases, StandsFor other.1 specifier →
      other.1 = entry.1 ∨ other.1.length < entry.1.length) :
    IsAlias (aliases ++ [entry]) specifier entry.1 entry.2 where
  stands := hentry
  target := by
    rw [List.reverse_append, List.reverse_singleton, List.singleton_append, List.lookup_cons,
      beq_self_eq_true]
  longest other ho hother := by
    rcases List.mem_append.1 ho with ho | ho
    · exact h other ho hother
    · exact Or.inl (by rw [List.mem_singleton.1 ho])

theorem Chosen.keepLonger {aliases : List (String × String)} {specifier : String}
    {best : Option (String × String)} (h : Chosen aliases specifier best) (entry : String × String) :
    Chosen (aliases ++ [entry]) specifier (Dependency.keepLonger specifier best entry) := by
  unfold Dependency.keepLonger
  by_cases hentry : StandsFor entry.1 specifier
  · rw [if_pos (aliasMatches_iff.2 hentry)]
    match best, h with
    | none, h => exact isAlias_last hentry fun other ho hother => absurd hother (h other ho)
    | some (key, target), h =>
      have h : IsAlias aliases specifier key target := h
      have hsize := byteSize_lt_iff hentry.isPrefix h.stands.isPrefix
      simp only
      split
      · rename_i hlt
        exact h.keep fun _ => hsize.1 hlt
      · rename_i hlt
        -- not shorter than the best so far, and so equal to it or longer
        have hle : key.length ≤ entry.1.length := Nat.not_lt.1 (mt hsize.2 hlt)
        have hequal : entry.1.length ≤ key.length → key = entry.1 := by
          intro hge
          rw [← String.toList_inj]
          refine (List.prefix_of_prefix_length_le h.stands.isPrefix hentry.isPrefix ?_).eq_of_length ?_
          · rwa [String.length_toList, String.length_toList]
          · rw [String.length_toList, String.length_toList, Nat.le_antisymm hle hge]
        refine isAlias_last hentry fun other ho hother => ?_
        rcases h.longest other ho hother with heq | hshorter
        · rcases Nat.lt_or_ge key.length entry.1.length with hless | hge
          · exact Or.inr (heq ▸ hless)
          · exact Or.inl (heq.trans (hequal hge))
        · exact Or.inr (Nat.lt_of_lt_of_le hshorter hle)
  · rw [if_neg (mt aliasMatches_iff.1 hentry)]
    match best, h with
    | none, h =>
      intro other ho
      rcases List.mem_append.1 ho with ho | ho
      · exact h other ho
      · rw [List.mem_singleton.1 ho]
        exact hentry
    | some (key, target), h => exact IsAlias.keep h fun hstands => absurd hstands hentry

theorem Chosen.foldl {seen : List (String × String)} {specifier : String}
    {best : Option (String × String)} (h : Chosen seen specifier best)
    (rest : List (String × String)) :
    Chosen (seen ++ rest) specifier (rest.foldl (Dependency.keepLonger specifier) best) := by
  induction rest generalizing seen best with
  | nil => simpa using h
  | cons entry rest ih =>
    rw [List.foldl_cons, List.append_cons]
    exact ih (h.keepLonger entry)

theorem chosen_matchingAlias? (aliases : List (String × String)) (specifier : String) :
    Chosen aliases specifier (matchingAlias? aliases specifier) := by
  have hstart : Chosen [] specifier none := fun entry he => absurd he List.not_mem_nil
  exact hstart.foldl aliases

theorem matchingAlias?_eq_some_iff {aliases : List (String × String)} {specifier key target : String} :
    matchingAlias? aliases specifier = some (key, target) ↔ IsAlias aliases specifier key target := by
  have hchosen := chosen_matchingAlias? aliases specifier
  constructor
  · intro h
    rwa [h] at hchosen
  · intro h
    cases hfound : matchingAlias? aliases specifier with
    | none =>
      rw [hfound] at hchosen
      exact absurd h.stands (hchosen _ h.mem)
    | some found =>
      rw [hfound] at hchosen
      obtain ⟨hkey, htarget⟩ := IsAlias.unique hchosen h
      rw [← hkey, ← htarget]

theorem matchingAlias?_eq_none_iff {aliases : List (String × String)} {specifier : String} :
    matchingAlias? aliases specifier = none ↔ ∀ entry ∈ aliases, ¬StandsFor entry.1 specifier := by
  have hchosen := chosen_matchingAlias? aliases specifier
  constructor
  · intro h
    rwa [h] at hchosen
  · intro h
    cases hfound : matchingAlias? aliases specifier with
    | none => rfl
    | some found =>
      rw [hfound] at hchosen
      exact absurd (IsAlias.stands hchosen) (h _ (IsAlias.mem hchosen))

/-! ## Candidates -/

/-- The path a specifier stands for, in normal form. -/
inductive IsCandidate (settings : Settings) (directory specifier : String) : String → Prop
  /-- What follows the alias stands below its target, without the slashes it starts with. -/
  | aliased {key target slashes rest : String}
      (chosen : IsAlias settings.aliases specifier key target)
      (split : specifier = key ++ slashes ++ rest) (only : ∀ c ∈ slashes.toList, c = '/')
      (first : rest.toList.head? ≠ some '/') :
      IsCandidate settings directory specifier
        (Path.normalize (Path.below (Path.join settings.base target) rest))
  | relative (unaliased : ∀ entry ∈ settings.aliases, ¬StandsFor entry.1 specifier)
      (dot : specifier.toList.head? = some '.') :
      IsCandidate settings directory specifier (Path.normalize (Path.join directory specifier))
  /-- A single slash comes off, so what follows two is an absolute path. -/
  | rooted {rest : String} (unaliased : ∀ entry ∈ settings.aliases, ¬StandsFor entry.1 specifier)
      (slash : specifier = "/" ++ rest) :
      IsCandidate settings directory specifier (Path.normalize (Path.join settings.base rest))

/-- What follows an alias, without slashes. -/
theorem dropWhile_slashes {key slashes rest : String} (only : ∀ c ∈ slashes.toList, c = '/')
    (first : rest.toList.head? ≠ some '/') :
    ((key ++ slashes ++ rest).toList.drop key.length).dropWhile (· == '/') = rest.toList := by
  have hslashes : ∀ c ∈ slashes.toList, (c == '/') = true := by simpa using only
  rw [← String.length_toList, String.toList_append, String.toList_append, List.append_assoc,
    List.drop_left, List.dropWhile_append_of_pos hslashes]
  cases hrest : rest.toList with
  | nil => rfl
  | cons c more =>
    rw [hrest] at first
    exact List.dropWhile_cons_of_neg (by simpa using first)

theorem IsCandidate.candidate?_eq {settings : Settings} {directory specifier candidate : String}
    (h : IsCandidate settings directory specifier candidate) :
    candidate? settings directory specifier = some candidate := by
  unfold candidate?
  cases h with
  | @aliased key target slashes rest chosen split only first =>
    rw [matchingAlias?_eq_some_iff.2 chosen]
    subst split
    simp only [dropWhile_slashes only first, String.ofList_toList]
    rw [← Path.normalize_below _ first]
    simp
  | relative unaliased dot =>
    obtain ⟨rest, hrest⟩ := List.head?_eq_some_iff.1 dot
    simp only [matchingAlias?_eq_none_iff.2 unaliased, hrest]
  | @rooted rest unaliased slash =>
    have hrest : specifier.toList = '/' :: rest.toList := by
      rw [slash, String.toList_append]
      rfl
    simp only [matchingAlias?_eq_none_iff.2 unaliased, hrest, String.ofList_toList]

/-- An alias, a dot and a slash each make a path of a specifier. -/
theorem exists_isCandidate {settings : Settings} (directory : String) {specifier : String}
    (h : (∃ entry ∈ settings.aliases, StandsFor entry.1 specifier) ∨
      specifier.toList.head? = some '.' ∨ specifier.toList.head? = some '/') :
    ∃ candidate, IsCandidate settings directory specifier candidate := by
  by_cases haliased : ∃ entry ∈ settings.aliases, StandsFor entry.1 specifier
  · obtain ⟨⟨key, target⟩, hfound⟩ : ∃ found, matchingAlias? settings.aliases specifier = some found := by
      rw [← Option.isSome_iff_exists, Option.isSome_iff_ne_none, Ne, matchingAlias?_eq_none_iff]
      simpa using haliased
    have hchosen := matchingAlias?_eq_some_iff.1 hfound
    obtain ⟨text, htext⟩ := hchosen.stands.isPrefix
    have hsplit : specifier = key ++ String.ofList (text.takeWhile (· == '/')) ++
        String.ofList (text.dropWhile (· == '/')) := by
      rw [← String.toList_inj]
      simp [htext]
    refine ⟨_, .aliased hchosen hsplit ?_ ?_⟩
    · intro c hc
      rw [String.toList_ofList] at hc
      simpa using List.mem_takeWhile_imp hc
    · rw [String.toList_ofList]
      have hnot := List.head?_dropWhile_not (· == '/') text
      intro hslash
      rw [hslash] at hnot
      cases hnot
  · have hunaliased : ∀ entry ∈ settings.aliases, ¬StandsFor entry.1 specifier := by
      simpa using haliased
    rcases h.resolve_left haliased with hdot | hslash
    · exact ⟨_, .relative hunaliased hdot⟩
    · obtain ⟨rest, hrest⟩ := List.head?_eq_some_iff.1 hslash
      refine ⟨_, @IsCandidate.rooted _ _ _ (String.ofList rest) hunaliased ?_⟩
      rw [← String.toList_inj, hrest]
      simp

theorem candidate?_of_package {settings : Settings} (directory : String) {specifier : String}
    (hunaliased : ∀ entry ∈ settings.aliases, ¬StandsFor entry.1 specifier)
    (hdot : specifier.toList.head? ≠ some '.') (hslash : specifier.toList.head? ≠ some '/') :
    candidate? settings directory specifier = none := by
  unfold candidate?
  rw [matchingAlias?_eq_none_iff.2 hunaliased]
  split
  · rename_i h
    cases h
  · split
    · rename_i rest h
      simp [h] at hdot
    · rename_i rest h
      simp [h] at hslash
    · rfl

/-! ## Files -/

/-- The first path of a list at which there is a file. -/
def IsFirstFile (disk : Disk) (paths : List String) (path : String) : Prop :=
  ∃ before after, paths = before ++ path :: after ∧ disk.isFile path = true ∧
    ∀ other ∈ before, disk.isFile other = false

theorem find?_isFile_eq_some_iff {disk : Disk} {paths : List String} {path : String} :
    paths.find? disk.isFile = some path ↔ IsFirstFile disk paths path := by
  rw [List.find?_eq_some_iff_append]
  constructor
  · rintro ⟨hfile, before, after, hsplit, hbefore⟩
    exact ⟨before, after, hsplit, hfile, by simpa using hbefore⟩
  · rintro ⟨before, after, hsplit, hfile, hbefore⟩
    exact ⟨hfile, before, after, hsplit, by simpa using hbefore⟩

/-- A specifier takes the longest alias that stands for it at a border of segments, and leads to the
first file among the paths tried for what it then stands for. A package leads nowhere. -/
theorem specifier_resolution_exact (disk : Disk) (settings : Settings)
    (directory specifier : String) :
    let aliased := ∃ entry ∈ settings.aliases, StandsFor entry.1 specifier
    let first := specifier.toList.head?
    let resolved := resolve? disk settings directory specifier
    (aliased → ∃! chosen : String × String,
      IsAlias settings.aliases specifier chosen.1 chosen.2) ∧
    (∀ key target, matchingAlias? settings.aliases specifier = some (key, target) ↔
      IsAlias settings.aliases specifier key target) ∧
    (¬aliased → first ≠ some '.' → first ≠ some '/' → resolved = none) ∧
    (aliased ∨ first = some '.' ∨ first = some '/' →
      ∃ candidate, IsCandidate settings directory specifier candidate) ∧
    ∀ candidate, IsCandidate settings directory specifier candidate →
      let tried := candidate :: (settings.extensions.map (candidate ++ ·) ++
        settings.extensions.map fun extension => Path.join candidate ("index" ++ extension))
      (∀ path, resolved = some path ↔ IsFirstFile disk tried path) ∧
      (resolved = none ↔ ∀ path ∈ tried, disk.isFile path = false) := by
  intro aliased first resolved
  refine ⟨?_, fun _ _ => matchingAlias?_eq_some_iff, ?_, exists_isCandidate directory, ?_⟩
  · rintro ⟨entry, he, hstands⟩
    cases hfound : matchingAlias? settings.aliases specifier with
    | none => exact absurd hstands (matchingAlias?_eq_none_iff.1 hfound entry he)
    | some found =>
      have hchosen := matchingAlias?_eq_some_iff.1 hfound
      refine ⟨found, hchosen, fun other hother => ?_⟩
      exact Prod.ext (hother.unique hchosen).1 (hother.unique hchosen).2
  · intro hunaliased hdot hslash
    have hnone := candidate?_of_package directory (by simpa [aliased] using hunaliased) hdot hslash
    simp only [resolved, resolve?, hnone, Option.bind_none]
  · intro candidate hcandidate tried
    have hresolved : resolved = tried.find? disk.isFile := by
      simp only [resolved, resolve?, hcandidate.candidate?_eq, Option.bind_some]
      rfl
    rw [hresolved]
    exact ⟨fun _ => find?_isFile_eq_some_iff, by simp⟩

/-- A scope of packages is no segment of an alias, and of two aliases the longer one is taken. -/
example : matchingAlias? [("@", "src")] "@scope/x" = none ∧
    matchingAlias? [("@/lib", "vendor"), ("@", "src")] "@/lib/x" = some ("@/lib", "vendor") := by
  decide +kernel

end Dependency
end AssetAudit
