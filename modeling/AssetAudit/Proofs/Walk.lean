import AssetAudit.Proofs.WalkLimit
import Mathlib.Data.List.Forall2
import Mathlib.Order.Bounds.Defs

/-!
# What a walk visits

`Walk` states the rounds of the breadth-first walk as rules, with the depth at which each file was
visited and without a bound on their number. `reachable` is the end of such a walk
(`walk_reachable`): its bound is never met.

A `Chain` is a path through the graph over files that qualify. `WalkInv` ties a round to chains: what
was visited stands at the end of one, depths never decrease from the visited files to the end of
the queue, two depths in the queue differ by at most one, and what a visited file leads to was visited
no deeper or waits in the queue. At the end of a walk the queue is empty, so chains of a length that
the settings allow end at visited files, and the depth of a file is its distance
(`WalkInv.isDistance`).
-/
namespace AssetAudit.Dependency

open AssetAudit.Path (components)

/-! ## Chains -/

/-- A file that is there and that no ignored text keeps out. -/
def Qualifies (disk : Disk) (settings : Settings) (file : String) : Prop :=
  disk.isFile file = true ∧ settings.ignoresPath file = false

/-- A depth within the limit, if there is one. -/
def Settings.Allows (settings : Settings) (depth : Nat) : Prop :=
  ∀ limit, settings.maxDepth = some limit → depth ≤ limit

/-- A way of the given number of edges from a start to a file, all files on it qualifying. -/
inductive Chain (disk : Disk) (settings : Settings) (start : String) : Nat → String → Prop
  | here (h : Qualifies disk settings start) : Chain disk settings start 0 start
  | next {length : Nat} {file target : String} (h : Chain disk settings start length file)
      (edge : target ∈ edges disk settings file) (ok : Qualifies disk settings target) :
      Chain disk settings start (length + 1) target

/-- The length of the shortest chain to a file, in whatever spelling. -/
def IsDistance (disk : Disk) (settings : Settings) (start file : String) (length : Nat) : Prop :=
  IsLeast {n | ∃ other, components other = components file ∧ Chain disk settings start n other}
    length

variable {disk : Disk} {settings : Settings} {start : String}

theorem Settings.Allows.mono {m n : Nat} (h : settings.Allows n) (hle : m ≤ n) :
    settings.Allows m :=
  fun limit hl => Nat.le_trans hle (h limit hl)

theorem Settings.allows_zero (settings : Settings) : settings.Allows 0 := fun _ _ => Nat.zero_le _

theorem admits_iff {file : String} {depth : Nat} :
    admits disk settings file depth = true ↔
      settings.Allows depth ∧ Qualifies disk settings file := by
  unfold admits Settings.Allows Qualifies
  cases settings.maxDepth <;> simp [and_assoc]

theorem Chain.qualifies {length : Nat} {file : String}
    (h : Chain disk settings start length file) : Qualifies disk settings file := by
  cases h with
  | here h => exact h
  | next _ _ ok => exact ok

/-! ## Edges -/

/-- A file without a text, or a script whose text cannot be parsed. -/
def Unreadable (disk : Disk) (file : String) : Prop :=
  disk.read? file = none ∨
    scriptExtensions.contains (Path.extension file) = true ∧ ∃ content error,
      disk.read? file = some content ∧
        Script.extract ⟨(Script.Dialect.ofExtension? (Path.extension file)).getD .javascript, false, []⟩
          content = .error error

theorem edges_of_unreadable {file : String} (h : Unreadable disk file) :
    edges disk settings file = [] := by
  rcases h with hnone | ⟨hscript, content, error, hread, herror⟩
  · simp [edges, hnone]
  · simp only [edges, hread, hscript, if_true, ofScript, herror]

theorem candidate?_congr {a b : String} (h : components a = components b) (specifier : String) :
    candidate? settings a specifier = candidate? settings b specifier := by
  unfold candidate?
  split
  · rfl
  · split
    · rw [Path.normalize_join_congr h]
    · rfl
    · rfl

theorem existing?_congr {a b : String} (h : components a = components b) (address : List Char) :
    existing? disk a address = existing? disk b address := by
  unfold existing?
  simp only [Path.normalize_join_congr h]

/-- Two spellings of a path lead to the same files. -/
theorem edges_congr {a b : String} (h : components a = components b)
    (ha : disk.isFile a = true) (hb : disk.isFile b = true) :
    edges disk settings a = edges disk settings b := by
  have hdir := Path.components_directory_congr h
  have hexisting : existing? disk (Path.directory a) = existing? disk (Path.directory b) :=
    funext fun address => existing?_congr hdir address
  have hresolve : resolve? disk settings (Path.directory a) =
      resolve? disk settings (Path.directory b) := by
    funext specifier
    unfold resolve?
    rw [candidate?_congr hdir]
  simp only [edges, ofScript, ofStyle, ofPage, Disk.read?_congr h ha hb, Path.extension_congr h,
    hexisting, hresolve]

/-! ## The rounds of a walk -/

/-- What a file adds to the queue. -/
def found (disk : Disk) (settings : Settings) (file : String) (depth : Nat) : List (String × Nat) :=
  (edges disk settings file).map fun target => (target, depth + 1)

/-- Whether an entry of the queue is to be visited. -/
def isDue (disk : Disk) (settings : Settings) (visited : List (String × Nat))
    (entry : String × Nat) : Bool :=
  !isVisited (visited.map Prod.fst) entry.1 && admits disk settings entry.1 entry.2

/-- `Walk visited queue result`: from these visited files and this queue, round after round, the walk
ends with `result`. -/
inductive Walk (disk : Disk) (settings : Settings) :
    List (String × Nat) → List (String × Nat) → List (String × Nat) → Prop
  | done (visited : List (String × Nat)) : Walk disk settings visited [] visited
  | pass {visited queue result : List (String × Nat)} {entry : String × Nat}
      (due : isDue disk settings visited entry = false)
      (rest : Walk disk settings visited queue result) :
      Walk disk settings visited (entry :: queue) result
  | visit {visited queue result : List (String × Nat)} {entry : String × Nat}
      (due : isDue disk settings visited entry = true)
      (rest : Walk disk settings (visited ++ [entry])
        (queue ++ found disk settings entry.1 entry.2) result) :
      Walk disk settings visited (entry :: queue) result

/-- The keys of visited files. -/
def keys (visited : List (String × Nat)) : List (List Path.Component) :=
  (visited.map Prod.fst).map components

theorem mem_keys {visited : List (String × Nat)} {key : List Path.Component} :
    key ∈ keys visited ↔ ∃ entry ∈ visited, components entry.1 = key := by
  simp [keys]

theorem isDue_iff {visited : List (String × Nat)} {entry : String × Nat} :
    isDue disk settings visited entry = true ↔
      components entry.1 ∉ keys visited ∧ settings.Allows entry.2 ∧
        Qualifies disk settings entry.1 := by
  unfold isDue
  rw [Bool.and_eq_true, admits_iff, mem_keys]
  simp [isVisited]

theorem nodup_keys_concat {visited : List (String × Nat)} {entry : String × Nat}
    (h : (keys visited).Nodup) (hdue : isDue disk settings visited entry = true) :
    (keys (visited ++ [entry])).Nodup := by
  have hnew := (isDue_iff.1 hdue).1
  unfold keys at h hnew ⊢
  rw [List.map_append, List.map_append, List.nodup_append]
  refine ⟨h, by simp, ?_⟩
  intro key hk other ho
  rw [List.map_singleton, List.map_singleton, List.mem_singleton] at ho
  rintro rfl
  exact hnew (ho ▸ hk)

theorem walk_of_next?_none {visited : List (String × Nat)} : ∀ {queue : List (String × Nat)},
    next? disk settings (visited.map Prod.fst) queue = none → Walk disk settings visited queue visited
  | [], _ => .done visited
  | (file, depth) :: queue, h => by
    unfold next? at h
    split at h
    · cases h
    · rename_i hdue
      exact .pass (by simpa [isDue] using hdue) (walk_of_next?_none h)

theorem next?_eq_some {visited : List (String × Nat)} {entry : String × Nat}
    {rest : List (String × Nat)} : ∀ {queue : List (String × Nat)},
    next? disk settings (visited.map Prod.fst) queue = some (entry, rest) →
      isDue disk settings visited entry = true ∧ entry ∈ queue ∧ rest ⊆ queue ∧
        ∀ result, Walk disk settings (visited ++ [entry])
            (rest ++ found disk settings entry.1 entry.2) result →
          Walk disk settings visited queue result
  | [], h => by cases h
  | (file, depth) :: queue, h => by
    unfold next? at h
    split at h
    · rename_i hdue
      cases h
      exact ⟨hdue, List.mem_cons_self, fun _ hm => List.mem_cons_of_mem _ hm,
        fun _ hw => .visit hdue hw⟩
    · rename_i hdue
      obtain ⟨h1, h2, h3, h4⟩ := next?_eq_some h
      exact ⟨h1, List.mem_cons_of_mem _ h2, fun _ hm => List.mem_cons_of_mem _ (h3 hm),
        fun _ hw => .pass (by simpa [isDue] using hdue) (h4 _ hw)⟩

/-- A state of the walk whose files count against the limit. -/
structure Fits (disk : Disk) (settings : Settings) (visited queue : List (String × Nat)) : Prop where
  nodup : (keys visited).Nodup
  visited : ∀ entry ∈ visited, IsTarget settings entry.1 ∧ disk.isFile entry.1 = true
  queue : ∀ entry ∈ queue, IsTarget settings entry.1

theorem Fits.length_le {visited queue : List (String × Nat)} (h : Fits disk settings visited queue) :
    visited.length ≤ visitLimit disk settings := by
  have := length_le_visitLimit h.nodup (by simpa using h.visited)
  rwa [List.length_map] at this

theorem Fits.visit {visited queue rest : List (String × Nat)} {entry : String × Nat}
    (h : Fits disk settings visited queue) (hdue : isDue disk settings visited entry = true)
    (hentry : entry ∈ queue) (hrest : rest ⊆ queue) :
    Fits disk settings (visited ++ [entry]) (rest ++ found disk settings entry.1 entry.2) := by
  refine ⟨nodup_keys_concat h.nodup hdue, ?_, ?_⟩
  · intro other ho
    rcases List.mem_append.1 ho with ho | ho
    · exact h.visited other ho
    · rw [List.mem_singleton.1 ho]
      exact ⟨h.queue entry hentry, (isDue_iff.1 hdue).2.2.1⟩
  · intro other ho
    rcases List.mem_append.1 ho with ho | ho
    · exact h.queue other (hrest ho)
    · obtain ⟨target, ht, rfl⟩ := List.mem_map.1 ho
      exact edges_isTarget ht

/-- With enough steps left `visit` follows the walk to its end. -/
theorem walk_visit : ∀ (steps : Nat) (visited queue : List (String × Nat)),
    Fits disk settings visited queue → visitLimit disk settings ≤ visited.length + steps →
    ∃ result, Walk disk settings visited queue result ∧
      result.map Prod.fst = visit disk settings steps (visited.map Prod.fst) queue := by
  intro steps
  induction steps with
  | zero =>
    intro visited queue hfits hsteps
    refine ⟨visited, walk_of_next?_none ?_, rfl⟩
    -- one more file would be one more than the limit
    cases hnext : next? disk settings (visited.map Prod.fst) queue with
    | none => rfl
    | some found =>
      obtain ⟨hdue, hentry, hrest, -⟩ := next?_eq_some hnext
      have := (hfits.visit hdue hentry hrest).length_le
      simp only [List.length_append, List.length_singleton] at this
      omega
  | succ steps ih =>
    intro visited queue hfits hsteps
    cases hnext : next? disk settings (visited.map Prod.fst) queue with
    | none => exact ⟨visited, walk_of_next?_none hnext, by simp [visit, hnext]⟩
    | some found =>
      obtain ⟨⟨file, depth⟩, rest⟩ := found
      obtain ⟨hdue, hentry, hrest, hwalk⟩ := next?_eq_some hnext
      obtain ⟨result, hresult, hmap⟩ := ih _ _ (hfits.visit hdue hentry hrest)
        (by simp only [List.length_append, List.length_singleton]; omega)
      refine ⟨result, hwalk result hresult, ?_⟩
      rw [hmap, visit, hnext, List.map_append]
      rfl

/-- `reachable` is the end of a walk. -/
theorem walk_reachable (disk : Disk) (settings : Settings) (entry : String) :
    ∃ result, Walk disk settings [] [(Path.normalize (Path.join settings.base entry), 0)] result ∧
      result.map Prod.fst = reachable disk settings entry := by
  refine walk_visit _ [] _ ⟨List.nodup_nil, by simp, ?_⟩ (by simp)
  intro first hfirst
  rw [List.mem_singleton.1 hfirst]
  exact isTarget_of_isNormal (Path.normalize_normal _) settings

/-! ## The invariant of a walk -/

structure WalkInv (disk : Disk) (settings : Settings) (start : String)
    (visited queue : List (String × Nat)) : Prop where
  nodup : (keys visited).Nodup
  /-- A visited file stands at the end of a chain. -/
  chain : ∀ entry ∈ visited, settings.Allows entry.2 ∧ Chain disk settings start entry.2 entry.1
  /-- What waits is the start, or some file at the end of a chain leads to it. -/
  waits : ∀ entry ∈ queue, entry = (start, 0) ∨ ∃ length file, entry.2 = length + 1 ∧
    Chain disk settings start length file ∧ entry.1 ∈ edges disk settings file
  sorted : ((visited ++ queue).map Prod.snd).Pairwise (· ≤ ·)
  close : ∀ a ∈ queue, ∀ b ∈ queue, b.2 ≤ a.2 + 1
  begun : Qualifies disk settings start →
    (∃ entry ∈ visited, components entry.1 = components start ∧ entry.2 = 0) ∨ (start, 0) ∈ queue
  /-- What a visited file leads to was visited, or waits. -/
  closed : ∀ entry ∈ visited, ∀ target ∈ edges disk settings entry.1,
    settings.Allows (entry.2 + 1) → Qualifies disk settings target →
    (∃ other ∈ visited, components other.1 = components target ∧ other.2 ≤ entry.2 + 1) ∨
      (target, entry.2 + 1) ∈ queue

theorem walkInv_start (disk : Disk) (settings : Settings) (start : String) :
    WalkInv disk settings start [] [(start, 0)] where
  nodup := List.nodup_nil
  chain := by simp
  waits := by simp
  sorted := by simp
  close := by simp
  begun := by simp
  closed := by simp

theorem WalkInv.le_head {visited queue : List (String × Nat)} {entry : String × Nat}
    (h : WalkInv disk settings start visited (entry :: queue)) :
    (∀ other ∈ visited, other.2 ≤ entry.2) ∧ ∀ other ∈ queue, entry.2 ≤ other.2 := by
  have hs := h.sorted
  rw [List.map_append, List.pairwise_append, List.map_cons, List.pairwise_cons] at hs
  refine ⟨fun other ho => ?_, fun other ho => ?_⟩
  · exact hs.2.2 _ (List.mem_map_of_mem ho) _ List.mem_cons_self
  · exact hs.2.1.1 _ (List.mem_map_of_mem ho)

/-- An entry is passed over, though it is allowed and qualifies, only if it was visited before. -/
theorem WalkInv.visited_of_passed {visited queue : List (String × Nat)} {entry : String × Nat}
    (h : WalkInv disk settings start visited (entry :: queue))
    (hdue : isDue disk settings visited entry = false) (hallows : settings.Allows entry.2)
    (hq : Qualifies disk settings entry.1) :
    ∃ other ∈ visited, components other.1 = components entry.1 ∧ other.2 ≤ entry.2 := by
  have hkey : components entry.1 ∈ keys visited := by
    by_contra hnot
    have := isDue_iff.2 ⟨hnot, hallows, hq⟩
    rw [hdue] at this
    cases this
  obtain ⟨other, ho, hc⟩ := mem_keys.1 hkey
  exact ⟨other, ho, hc, h.le_head.1 other ho⟩

theorem WalkInv.pass {visited queue : List (String × Nat)} {entry : String × Nat}
    (h : WalkInv disk settings start visited (entry :: queue))
    (hdue : isDue disk settings visited entry = false) :
    WalkInv disk settings start visited queue where
  nodup := h.nodup
  chain := h.chain
  waits other ho := h.waits other (List.mem_cons_of_mem _ ho)
  sorted := by
    refine h.sorted.sublist (List.Sublist.map _ ?_)
    exact List.Sublist.append_left (List.sublist_cons_self _ _) _
  close a ha b hb := h.close a (List.mem_cons_of_mem _ ha) b (List.mem_cons_of_mem _ hb)
  begun hq := by
    rcases h.begun hq with hv | hw
    · exact Or.inl hv
    · rcases List.mem_cons.1 hw with rfl | hw
      · obtain ⟨other, ho, hc, hle⟩ := h.visited_of_passed hdue settings.allows_zero hq
        exact Or.inl ⟨other, ho, hc, Nat.le_zero.1 hle⟩
      · exact Or.inr hw
  closed source hsource target ht hallows hq := by
    rcases h.closed source hsource target ht hallows hq with hv | hw
    · exact Or.inl hv
    · rcases List.mem_cons.1 hw with rfl | hw
      · exact Or.inl (h.visited_of_passed hdue hallows hq)
      · exact Or.inr hw

theorem WalkInv.chain_of_due {visited queue : List (String × Nat)} {entry : String × Nat}
    (h : WalkInv disk settings start visited (entry :: queue))
    (hdue : isDue disk settings visited entry = true) :
    Chain disk settings start entry.2 entry.1 := by
  have hq := (isDue_iff.1 hdue).2.2
  rcases h.waits entry List.mem_cons_self with rfl | ⟨length, file, hdepth, hchain, hedge⟩
  · exact .here hq
  · rw [hdepth]; exact .next hchain hedge hq

theorem mem_found {file : String} {depth : Nat} {entry : String × Nat}
    (h : entry ∈ found disk settings file depth) :
    entry.1 ∈ edges disk settings file ∧ entry.2 = depth + 1 := by
  obtain ⟨target, ht, rfl⟩ := List.mem_map.1 h
  exact ⟨ht, rfl⟩

theorem WalkInv.sorted_visit {visited queue : List (String × Nat)} {entry : String × Nat}
    (h : WalkInv disk settings start visited (entry :: queue)) :
    (((visited ++ [entry]) ++ (queue ++ found disk settings entry.1 entry.2)).map
      Prod.snd).Pairwise (· ≤ ·) := by
  have hsplit : (visited ++ [entry]) ++ (queue ++ found disk settings entry.1 entry.2) =
      (visited ++ entry :: queue) ++ found disk settings entry.1 entry.2 := by simp
  rw [hsplit, List.map_append, List.pairwise_append]
  refine ⟨h.sorted, ?_, ?_⟩
  · have hconst : (found disk settings entry.1 entry.2).map Prod.snd =
        List.replicate (edges disk settings entry.1).length (entry.2 + 1) := by
      simp [found, Function.comp_def]
    rw [hconst, List.pairwise_replicate]
    exact Or.inr (Nat.le_refl _)
  · intro depth hd new hn
    obtain ⟨other, ho, rfl⟩ := List.mem_map.1 hd
    obtain ⟨added, ha, rfl⟩ := List.mem_map.1 hn
    rw [(mem_found ha).2]
    rcases List.mem_append.1 ho with ho | ho
    · exact Nat.le_succ_of_le (h.le_head.1 other ho)
    · exact h.close entry List.mem_cons_self other ho

theorem WalkInv.visit {visited queue : List (String × Nat)} {entry : String × Nat}
    (h : WalkInv disk settings start visited (entry :: queue))
    (hdue : isDue disk settings visited entry = true) :
    WalkInv disk settings start (visited ++ [entry])
      (queue ++ found disk settings entry.1 entry.2) where
  nodup := nodup_keys_concat h.nodup hdue
  chain other ho := by
    rcases List.mem_append.1 ho with ho | ho
    · exact h.chain other ho
    · rw [List.mem_singleton.1 ho]
      exact ⟨(isDue_iff.1 hdue).2.1, h.chain_of_due hdue⟩
  waits other ho := by
    rcases List.mem_append.1 ho with ho | ho
    · exact h.waits other (List.mem_cons_of_mem _ ho)
    · obtain ⟨hedge, hdepth⟩ := mem_found ho
      exact Or.inr ⟨entry.2, entry.1, hdepth, h.chain_of_due hdue, hedge⟩
  sorted := h.sorted_visit
  close a ha b hb := by
    have hclose := h.close entry List.mem_cons_self
    rcases List.mem_append.1 ha with ha | ha <;> rcases List.mem_append.1 hb with hb | hb
    · exact h.close a (List.mem_cons_of_mem _ ha) b (List.mem_cons_of_mem _ hb)
    · rw [(mem_found hb).2]
      exact Nat.succ_le_succ (h.le_head.2 a ha)
    · rw [(mem_found ha).2]
      exact Nat.le_succ_of_le (hclose b (List.mem_cons_of_mem _ hb))
    · rw [(mem_found ha).2, (mem_found hb).2]
      exact Nat.le_succ _
  begun hq := by
    rcases h.begun hq with ⟨other, ho, hc⟩ | hw
    · exact Or.inl ⟨other, List.mem_append_left _ ho, hc⟩
    · rcases List.mem_cons.1 hw with rfl | hw
      · exact Or.inl ⟨(start, 0), by simp, rfl, rfl⟩
      · exact Or.inr (List.mem_append_left _ hw)
  closed source hsource target ht hallows hq := by
    rcases List.mem_append.1 hsource with hsource | hsource
    · rcases h.closed source hsource target ht hallows hq with ⟨other, ho, hc⟩ | hw
      · exact Or.inl ⟨other, List.mem_append_left _ ho, hc⟩
      · rcases List.mem_cons.1 hw with rfl | hw
        · exact Or.inl ⟨(target, source.2 + 1), by simp, rfl, Nat.le_refl _⟩
        · exact Or.inr (List.mem_append_left _ hw)
    · rw [List.mem_singleton.1 hsource] at ht ⊢
      exact Or.inr (List.mem_append_right _ (List.mem_map_of_mem ht))

theorem Walk.inv {visited queue result : List (String × Nat)}
    (hw : Walk disk settings visited queue result)
    (h : WalkInv disk settings start visited queue) : WalkInv disk settings start result [] := by
  induction hw with
  | done visited => exact h
  | pass due _ ih => exact ih (h.pass due)
  | visit due _ ih => exact ih (h.visit due)

theorem Walk.prefix_result {visited queue result : List (String × Nat)}
    (hw : Walk disk settings visited queue result) : visited <+: result := by
  induction hw with
  | done visited => exact List.prefix_refl _
  | pass _ _ ih => exact ih
  | visit _ _ ih => exact (List.prefix_append _ _).trans ih

/-! ## The end of a walk -/

/-- A chain that is allowed ends at a file that was visited, no deeper than the chain is long. -/
theorem WalkInv.visited_of_chain {visited : List (String × Nat)}
    (h : WalkInv disk settings start visited []) {length : Nat} {file : String}
    (hchain : Chain disk settings start length file) :
    settings.Allows length →
      ∃ entry ∈ visited, components entry.1 = components file ∧ entry.2 ≤ length := by
  induction hchain with
  | here hq =>
    intro _
    rcases h.begun hq with ⟨entry, he, hc, hzero⟩ | hw
    · exact ⟨entry, he, hc, Nat.le_of_eq hzero⟩
    · cases hw
  | @next length file target hchain hedge hq ih =>
    intro hallows
    obtain ⟨entry, he, hc, hle⟩ := ih (hallows.mono (Nat.le_succ _))
    have hsame : edges disk settings entry.1 = edges disk settings file :=
      edges_congr hc (h.chain entry he).2.qualifies.1 hchain.qualifies.1
    rcases h.closed entry he target (hsame ▸ hedge) (hallows.mono (Nat.succ_le_succ hle)) hq with
      ⟨other, ho, hoc, hole⟩ | hw
    · exact ⟨other, ho, hoc, Nat.le_trans hole (Nat.succ_le_succ hle)⟩
    · cases hw

/-- The depth of a visited file is its distance. -/
theorem WalkInv.isDistance {visited : List (String × Nat)}
    (h : WalkInv disk settings start visited []) {entry : String × Nat} (he : entry ∈ visited) :
    IsDistance disk settings start entry.1 entry.2 := by
  obtain ⟨hallows, hchain⟩ := h.chain entry he
  refine ⟨⟨entry.1, rfl, hchain⟩, ?_⟩
  rintro n ⟨other, hc, hn⟩
  by_contra hlt
  -- a shorter chain would be allowed, and its end visited less deep under the same key
  obtain ⟨entry', he', hc', hle⟩ :=
    h.visited_of_chain hn (hallows.mono (Nat.le_of_lt (Nat.not_le.1 hlt)))
  have hsame : entry' = entry := by
    have hnodup := h.nodup
    rw [keys, List.map_map] at hnodup
    exact List.inj_on_of_nodup_map hnodup he' he (hc'.trans hc)
  rw [hsame] at hle
  exact hlt hle

theorem Walk.head? {result : List (String × Nat)}
    (hw : Walk disk settings [] [(start, 0)] result) (hq : Qualifies disk settings start) :
    result.head? = some (start, 0) := by
  cases hw with
  | pass due _ =>
    have hdue : isDue disk settings [] (start, 0) = true :=
      isDue_iff.2 ⟨List.not_mem_nil, settings.allows_zero, hq⟩
    rw [due] at hdue
    cases hdue
  | visit _ rest =>
    obtain ⟨later, rfl⟩ := rest.prefix_result
    rfl

/-- The reachable files are the ends of the chains of an allowed length, each once, by distance. -/
theorem reachable_exact (disk : Disk) (settings : Settings) (entry : String) :
    let start := Path.normalize (Path.join settings.base entry)
    let files := reachable disk settings entry
    (files.map components).Nodup ∧
    (∀ file ∈ files, ∃ length, settings.Allows length ∧ Chain disk settings start length file) ∧
    (∀ file, components file ∈ files.map components ↔ ∃ length other, settings.Allows length ∧
      Chain disk settings start length other ∧ components other = components file) ∧
    (∀ file, Unreadable disk file → edges disk settings file = []) ∧
    (Qualifies disk settings start → files.head? = some start) ∧
    ∃ depths, Walk disk settings [] [(start, 0)] (files.zip depths) ∧
      List.Forall₂ (IsDistance disk settings start) files depths ∧ depths.Pairwise (· ≤ ·) := by
  intro start files
  obtain ⟨result, hwalk, hresult⟩ := walk_reachable disk settings entry
  have hinv : WalkInv disk settings start result [] := hwalk.inv (walkInv_start disk settings start)
  have hfiles : files = result.map Prod.fst := hresult.symm
  have hmem : ∀ file, file ∈ files ↔ ∃ depth, (file, depth) ∈ result := by simp [hfiles]
  refine ⟨?_, ?_, ?_, fun _ => edges_of_unreadable, ?_, result.map Prod.snd, ?_, ?_, ?_⟩
  · rw [hfiles]; exact hinv.nodup
  · intro file hfile
    obtain ⟨depth, hd⟩ := (hmem file).1 hfile
    exact ⟨depth, hinv.chain _ hd⟩
  · intro file
    constructor
    · intro hfile
      obtain ⟨other, hother, hc⟩ := List.mem_map.1 hfile
      obtain ⟨depth, hd⟩ := (hmem other).1 hother
      obtain ⟨hallows, hchain⟩ := hinv.chain _ hd
      exact ⟨depth, other, hallows, hchain, hc⟩
    · rintro ⟨length, other, hallows, hchain, hc⟩
      obtain ⟨found, hfound, hfc, -⟩ := hinv.visited_of_chain hchain hallows
      exact List.mem_map.2 ⟨found.1, (hmem _).2 ⟨found.2, hfound⟩, hfc.trans hc⟩
  · intro hq
    rw [hfiles, List.head?_map, hwalk.head? hq]
    rfl
  · rw [hfiles, ← List.unzip_fst, ← List.unzip_snd, List.zip_unzip]
    exact hwalk
  · rw [hfiles, List.forall₂_map_left_iff, List.forall₂_map_right_iff, List.forall₂_same]
    exact fun found hfound => hinv.isDistance hfound
  · have hsorted := hinv.sorted
    rwa [List.append_nil] at hsorted

end AssetAudit.Dependency
