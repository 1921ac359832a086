import AssetAudit.Proofs.TreePlace
import Mathlib.Data.List.Forall2

/-!
# The nodes of a tree in the order of the text

A node is told by the path to it from the root (`Tree.visit?`), and paths are in the order of the text
if they are in lexical order: a node comes before those below it, and children from left to right. The
visits of a tree are its nodes in this order, every one of them once (`map_visit?_paths`, `mem_paths`,
`pairwise_paths`). Where trees are placed in a text, nodes that come later do not start earlier
(`pairwise_visits`).

Something is `Listed` by the nodes of a tree if it has one entry for every node that gives one, in this
order. That is so for what each node gives by itself, if it gives one thing at most (`listed_flatMap`).
-/
namespace AssetAudit.Script

/-! ## Paths -/

/-- The node that a path leads to from a tree, each number being the place of a child, with the nodes
around it. -/
def Tree.visitFrom? : List Nat → List Tree → Tree → Option Visit
  | [], around, tree => some ⟨around, tree⟩
  | i :: path, around, tree => tree.children[i]?.bind (visitFrom? path (tree :: around))

def Tree.visit? (tree : Tree) (path : List Nat) : Option Visit := visitFrom? path [] tree

mutual

/-- The paths to the nodes of a tree, in lexical order. -/
def Tree.paths : Tree → List (List Nat)
  | .mk _ _ _ children => [] :: forestPaths 0 children

/-- The paths to the nodes of trees that are the children of a node from the `i`-th on. -/
def forestPaths (i : Nat) : List Tree → List (List Nat)
  | [] => []
  | tree :: trees => tree.paths.map (i :: ·) ++ forestPaths (i + 1) trees

end

theorem le_head_of_mem_forestPaths {path : List Nat} : ∀ {trees : List Tree} {i : Nat},
    path ∈ forestPaths i trees → ∃ j rest, path = j :: rest ∧ i ≤ j
  | tree :: trees, i, h => by
    rw [forestPaths] at h
    rcases List.mem_append.1 h with h | h
    · obtain ⟨rest, -, rfl⟩ := List.mem_map.1 h
      exact ⟨i, rest, rfl, Nat.le_refl i⟩
    · obtain ⟨j, rest, hpath, hle⟩ := le_head_of_mem_forestPaths h
      exact ⟨j, rest, hpath, Nat.le_of_succ_le hle⟩

mutual

theorem Tree.pairwise_paths : ∀ tree : Tree, tree.paths.Pairwise (· < ·)
  | .mk _ _ _ children => by
    rw [Tree.paths]
    refine List.Pairwise.cons (fun path hpath => ?_) (pairwise_forestPaths 0 children)
    obtain ⟨j, rest, rfl, -⟩ := le_head_of_mem_forestPaths hpath
    exact List.nil_lt_cons j rest

theorem pairwise_forestPaths : ∀ (i : Nat) (trees : List Tree), (forestPaths i trees).Pairwise (· < ·)
  | _, [] => by
    rw [forestPaths]
    exact List.Pairwise.nil
  | i, tree :: trees => by
    rw [forestPaths]
    refine List.pairwise_append.2 ⟨?_, pairwise_forestPaths (i + 1) trees, ?_⟩
    · refine List.pairwise_map.2 (tree.pairwise_paths.imp fun hlt => ?_)
      exact List.cons_lt_cons_iff.2 (.inr ⟨rfl, hlt⟩)
    · intro path hpath other hother
      obtain ⟨rest, -, rfl⟩ := List.mem_map.1 hpath
      obtain ⟨j, rest', rfl, hle⟩ := le_head_of_mem_forestPaths hother
      exact List.cons_lt_cons_iff.2 (.inl hle)

end

theorem cons_mem_forestPaths {tree : Tree} {path : List Nat} (hpath : path ∈ tree.paths) :
    ∀ {trees : List Tree} (start : Nat) {i : Nat}, trees[i]? = some tree →
      (start + i) :: path ∈ forestPaths start trees
  | first :: trees, start, 0, h => by
    rw [List.getElem?_cons_zero, Option.some.injEq] at h
    subst h
    rw [forestPaths]
    exact List.mem_append_left _ (List.mem_map.2 ⟨path, hpath, rfl⟩)
  | first :: trees, start, i + 1, h => by
    rw [List.getElem?_cons_succ] at h
    have hrest := cons_mem_forestPaths hpath (start + 1) h
    rw [Nat.add_assoc, Nat.add_comm 1 i] at hrest
    rw [forestPaths]
    exact List.mem_append_right _ hrest

/-- A path that leads to a node is one of the paths of the tree. -/
theorem Tree.mem_paths : ∀ {path : List Nat} {around : List Tree} {tree : Tree} {visit : Visit},
    visitFrom? path around tree = some visit → path ∈ tree.paths
  | [], _, .mk _ _ _ _, _, _ => by
    rw [Tree.paths]
    exact List.mem_cons_self
  | i :: path, around, .mk k r s children, visit, h => by
    obtain ⟨child, hchild, h⟩ := Option.bind_eq_some_iff.1 h
    have hmem := cons_mem_forestPaths (mem_paths h) 0 hchild
    rw [Nat.zero_add] at hmem
    rw [Tree.paths]
    exact List.mem_cons_of_mem _ hmem

mutual

theorem Tree.map_visitFrom?_paths : ∀ (tree : Tree) (around : List Tree),
    tree.paths.map (Tree.visitFrom? · around tree) = (tree.visitsFrom around).map some
  | .mk k r s children, around => by
    rw [Tree.paths, Tree.visitsFrom, List.map_cons, List.map_cons, Tree.visitFrom?,
      ← map_bind_forestPaths children 0 children (.mk k r s children :: around) (fun _ => by simp)]
    refine congrArg _ (List.map_congr_left fun path hpath => ?_)
    obtain ⟨j, rest, rfl, -⟩ := le_head_of_mem_forestPaths hpath
    rfl

/-- Trees that are the children of a node from the `start`-th on. -/
theorem map_bind_forestPaths : ∀ (trees : List Tree) (start : Nat) (children around : List Tree),
    (∀ i, children[start + i]? = trees[i]?) →
    (forestPaths start trees).map (fun path =>
      children[path.headD 0]?.bind (Tree.visitFrom? path.tail around)) =
      (forestVisits around trees).map some
  | [], start, children, around, _ => by simp [forestPaths, forestVisits]
  | tree :: trees, start, children, around, h => by
    have hfirst : children[start]? = some tree := by simpa using h 0
    have hrest : ∀ i, children[start + 1 + i]? = trees[i]? := by
      intro i
      have hnext := h (i + 1)
      rwa [List.getElem?_cons_succ, ← Nat.add_assoc, Nat.add_right_comm] at hnext
    rw [forestPaths, forestVisits, List.map_append, List.map_append,
      map_bind_forestPaths trees (start + 1) children around hrest, List.map_map,
      ← tree.map_visitFrom?_paths around]
    refine congrArg (· ++ _) (List.map_congr_left fun path _ => ?_)
    simp [hfirst]

end

/-- The visits of a tree are the nodes that its paths lead to. -/
theorem map_visit?_paths (tree : Tree) : tree.paths.map tree.visit? = tree.visits.map some :=
  tree.map_visitFrom?_paths []

/-! ## Starts of nodes -/

section Starts

variable {text : List Char}

mutual

theorem Tree.Placed.le_start_of_mem : ∀ {tree : Tree}, tree.Placed text → ∀ {around : List Tree}
    {visit : Visit}, visit ∈ tree.visitsFrom around →
      tree.span.start ≤ visit.node.span.start ∧ visit.node.span.start ≤ tree.span.stop
  | .mk _ _ _ _, h, _, _, hvisit => by
    rw [Tree.visitsFrom] at hvisit
    rcases List.mem_cons.1 hvisit with rfl | hvisit
    · exact ⟨Nat.le_refl _, h.fits.le⟩
    · exact Laid.le_start_of_mem h.laid hvisit

theorem Laid.le_start_of_mem : ∀ {trees : List Tree} {start stop : Nat}, Laid text stop start trees →
    ∀ {around : List Tree} {visit : Visit}, visit ∈ forestVisits around trees →
      start ≤ visit.node.span.start ∧ visit.node.span.start ≤ stop
  | tree :: trees, _, _, ⟨hstart, hplaced, hrest⟩, _, _, hvisit => by
    rw [forestVisits] at hvisit
    rcases List.mem_append.1 hvisit with hvisit | hvisit
    · obtain ⟨hlow, hhigh⟩ := hplaced.le_start_of_mem hvisit
      exact ⟨Nat.le_trans hstart hlow, Nat.le_trans hhigh hrest.le⟩
    · obtain ⟨hlow, hhigh⟩ := hrest.le_start_of_mem hvisit
      exact ⟨Nat.le_trans hstart (Nat.le_trans hplaced.fits.le hlow), hhigh⟩

end

mutual

theorem Tree.Placed.pairwise_visitsFrom : ∀ {tree : Tree}, tree.Placed text → ∀ around : List Tree,
    (tree.visitsFrom around).Pairwise fun a b => a.node.span.start ≤ b.node.span.start
  | .mk _ _ _ _, h, around => by
    rw [Tree.visitsFrom]
    exact List.Pairwise.cons (fun visit hvisit => (Laid.le_start_of_mem h.laid hvisit).1)
      (Laid.pairwise_forestVisits h.laid _)

theorem Laid.pairwise_forestVisits : ∀ {trees : List Tree} {start stop : Nat},
    Laid text stop start trees → ∀ around : List Tree,
      (forestVisits around trees).Pairwise fun a b => a.node.span.start ≤ b.node.span.start
  | [], _, _, _, _ => by
    rw [forestVisits]
    exact List.Pairwise.nil
  | tree :: trees, _, _, ⟨_, hplaced, hrest⟩, around => by
    rw [forestVisits]
    refine List.pairwise_append.2
      ⟨hplaced.pairwise_visitsFrom around, hrest.pairwise_forestVisits around, ?_⟩
    intro a ha b hb
    exact Nat.le_trans (hplaced.le_start_of_mem ha).2 (hrest.le_start_of_mem hb).1

end

/-- Later nodes of a placed tree do not start earlier. -/
theorem Tree.Placed.pairwise_visits {tree : Tree} (h : tree.Placed text) :
    tree.visits.Pairwise fun a b => a.node.span.start ≤ b.node.span.start :=
  h.pairwise_visitsFrom []

end Starts

/-! ## What the nodes of a tree list -/

section Lists

variable {α : Type} {tree : Tree} {Gives : Visit → α → Prop}

/-- Whether a list has one entry for every node of a tree that gives one, in the order of the text: its
entries are given at places that go up, and these are all the places at which one is given. -/
def Listed (tree : Tree) (Gives : Visit → α → Prop) (entries : List α) : Prop :=
  ∃ places : List (List Nat), places.Pairwise (· < ·) ∧
    (∀ place, place ∈ places ↔ ∃ visit entry, tree.visit? place = some visit ∧ Gives visit entry) ∧
    List.Forall₂ (fun place entry => ∃ visit, tree.visit? place = some visit ∧ Gives visit entry)
      places entries

/-- The places among some paths at which the share of a node is not empty. -/
theorem exists_places {share : Visit → List α} (hone : ∀ visit, (share visit).length ≤ 1)
    (hmem : ∀ visit entry, entry ∈ share visit ↔ Gives visit entry) :
    ∀ {paths : List (List Nat)} {visits : List Visit}, paths.map tree.visit? = visits.map some →
      ∃ places, places.Sublist paths ∧
        (∀ place ∈ paths, ∀ visit entry, tree.visit? place = some visit → Gives visit entry →
          place ∈ places) ∧
        List.Forall₂ (fun place entry => ∃ visit, tree.visit? place = some visit ∧ Gives visit entry)
          places (visits.flatMap share)
  | [], [], _ => ⟨[], List.Sublist.slnil, by simp, List.Forall₂.nil⟩
  | path :: paths, visit :: visits, h => by
    rw [List.map_cons, List.map_cons, List.cons.injEq] at h
    obtain ⟨hvisit, hrest⟩ := h
    obtain ⟨places, hsub, hall, hentries⟩ := exists_places hone hmem hrest
    rw [List.flatMap_cons]
    rcases hshare : share visit with _ | ⟨entry, _ | ⟨second, rest⟩⟩
    · refine ⟨places, hsub.cons path, ?_, hentries⟩
      intro place hplace visit' entry hvisit' hgives
      rcases List.mem_cons.1 hplace with rfl | hplace
      · rw [hvisit, Option.some.injEq] at hvisit'
        rw [← hvisit', ← hmem, hshare] at hgives
        cases hgives
      · exact hall place hplace visit' entry hvisit' hgives
    · have hgives : Gives visit entry := by
        rw [← hmem, hshare]
        exact List.mem_cons_self
      refine ⟨path :: places, hsub.cons_cons path, ?_, .cons ⟨visit, hvisit, hgives⟩ hentries⟩
      intro place hplace visit' entry' hvisit' hgives'
      rcases List.mem_cons.1 hplace with rfl | hplace
      · exact List.mem_cons_self
      · exact List.mem_cons_of_mem _ (hall place hplace visit' entry' hvisit' hgives')
    · have hlength := hone visit
      rw [hshare, List.length_cons, List.length_cons] at hlength
      omega

/-- What the nodes of a tree give one after another is listed, if none gives more than one thing. -/
theorem listed_flatMap {share : Visit → List α} (hone : ∀ visit, (share visit).length ≤ 1)
    (hmem : ∀ visit entry, entry ∈ share visit ↔ Gives visit entry) :
    Listed tree Gives (tree.visits.flatMap share) := by
  obtain ⟨places, hsub, hall, hentries⟩ := exists_places hone hmem (map_visit?_paths tree)
  refine ⟨places, tree.pairwise_paths.sublist hsub, fun place => ⟨fun hplace => ?_, ?_⟩, hentries⟩
  · obtain ⟨i, hi, rfl⟩ := List.getElem_of_mem hplace
    obtain ⟨visit, hvisit, hgives⟩ := hentries.get hi (hentries.length_eq ▸ hi)
    exact ⟨visit, _, hvisit, hgives⟩
  · rintro ⟨visit, entry, hvisit, hgives⟩
    exact hall place (Tree.mem_paths hvisit) visit entry hvisit hgives

end Lists

end AssetAudit.Script
