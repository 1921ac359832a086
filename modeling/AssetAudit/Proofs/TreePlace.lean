import AssetAudit.Proofs.PlaceOrder
import AssetAudit.Proofs.ReadingStep

/-!
# Where the nodes of a tree stand

A tree is placed in a text if its span and those of all trees below it cut no character, and the
children of every node stand one after another inside it (`Tree.Placed`). Reading only ever puts trees
behind those it has read: a reading that `Stands` in the text still does after a token or a comment, and
closing trees into a node keeps the order (`Laid.node`). Hence every step of reading keeps it
(`Reads.stands`), and the tree of a unit is placed (`placed_parse`).
-/
namespace AssetAudit.Script

open Cursor (At)
open Text (IsBoundary Fits)

variable {text : List Char}

/-! ## Placed trees -/

mutual

/-- Whether the spans of a tree and of the trees below it cut no character of a text, and children stand
inside their parents in the order of the text. -/
def Tree.Placed (text : List Char) : Tree → Prop
  | .mk _ _ span children => Fits text span ∧ Laid text span.stop span.start children

/-- Whether placed trees stand one after another between two offsets, `stop` being the second. -/
def Laid (text : List Char) (stop : Nat) : Nat → List Tree → Prop
  | start, [] => start ≤ stop
  | start, tree :: trees => start ≤ tree.span.start ∧ tree.Placed text ∧ Laid text stop tree.span.stop trees

end

theorem Tree.Placed.fits {tree : Tree} (h : tree.Placed text) : Fits text tree.span := by
  cases tree
  exact h.1

theorem Tree.Placed.laid {tree : Tree} (h : tree.Placed text) :
    Laid text tree.span.stop tree.span.start tree.children := by
  cases tree
  exact h.2

theorem Tree.Placed.withRole {tree : Tree} (h : tree.Placed text) (r : Role) :
    (tree.withRole r).Placed text := by
  cases tree
  exact h

/-- A tree without children is placed where it stands. -/
theorem placed_leaf {span : Span} (h : Fits text span) (kind : Kind) (role : Role) :
    (Tree.mk kind role span []).Placed text :=
  ⟨h, h.le⟩

namespace Laid

variable {start stop : Nat} {trees : List Tree}

theorem le : ∀ {start : Nat} {trees : List Tree}, Laid text stop start trees → start ≤ stop
  | _, [], h => h
  | _, _ :: _, ⟨hstart, hplaced, hrest⟩ =>
    Nat.le_trans hstart (Nat.le_trans hplaced.fits.le hrest.le)

theorem of_le {start' : Nat} (h : Laid text stop start trees) (hle : start' ≤ start) :
    Laid text stop start' trees := by
  cases trees with
  | nil => exact Nat.le_trans hle h
  | cons tree trees => exact ⟨Nat.le_trans hle h.1, h.2⟩

theorem append {middle : Nat} {a b : List Tree} (ha : Laid text middle start a)
    (hb : Laid text stop middle b) : Laid text stop start (a ++ b) := by
  induction a generalizing start with
  | nil => exact hb.of_le ha
  | cons tree a ih => exact ⟨ha.1, ha.2.1, ih ha.2.2⟩

theorem exists_middle {a b : List Tree} (h : Laid text stop start (a ++ b)) :
    ∃ middle, Laid text middle start a ∧ Laid text stop middle b := by
  induction a generalizing start with
  | nil => exact ⟨start, Nat.le_refl start, h⟩
  | cons tree a ih =>
    obtain ⟨hstart, hplaced, hrest⟩ := h
    obtain ⟨middle, ha, hb⟩ := ih hrest
    exact ⟨middle, ⟨hstart, hplaced, ha⟩, hb⟩

theorem singleton {tree : Tree} (hstart : start ≤ tree.span.start) (hplaced : tree.Placed text)
    (hstop : tree.span.stop ≤ stop) : Laid text stop start [tree] :=
  ⟨hstart, hplaced, hstop⟩

/-- Other roles leave trees where they are. -/
theorem setRole (h : Laid text stop start trees) (r : Role) :
    Laid text stop start (setRole r trees) := by
  induction trees generalizing start with
  | nil => exact h
  | cons tree trees ih =>
    obtain ⟨hstart, hplaced, hrest⟩ := h
    rw [Script.setRole, List.map_cons]
    split
    · exact ⟨hstart, hplaced, ih hrest⟩
    · cases tree
      exact ⟨hstart, hplaced.withRole r, ih hrest⟩

/-- Trees that stand one after another end with the last of them. -/
theorem exists_last {tree : Tree} (h : Laid text stop start (tree :: trees)) :
    ∃ last, (tree :: trees).getLast? = some last ∧ last.Placed text ∧ last.span.stop ≤ stop ∧
      Laid text last.span.stop start (tree :: trees) := by
  induction trees generalizing start tree with
  | nil =>
    obtain ⟨hstart, hplaced, hstop⟩ := h
    exact ⟨tree, rfl, hplaced, hstop, hstart, hplaced, Nat.le_refl _⟩
  | cons second trees ih =>
    obtain ⟨hstart, hplaced, hrest⟩ := h
    obtain ⟨last, hlast, hend, hstop, hlaid⟩ := ih hrest
    exact ⟨last, by rw [List.getLast?_cons_cons, hlast], hend, hstop, hstart, hplaced, hlaid⟩

/-- Trees that stand one after another can be closed into a node, which stands where they do. -/
theorem node (h : Laid text stop start trees) (hstop : IsBoundary text stop) (kind : Kind) :
    Laid text stop start [.mk kind .plain (forestSpan stop trees) trees] := by
  cases trees with
  | nil => exact ⟨h, ⟨⟨hstop, hstop, Nat.le_refl _⟩, Nat.le_refl stop⟩, Nat.le_refl stop⟩
  | cons tree trees =>
    obtain ⟨last, hlast, hend, hle, hlaid⟩ := h.exists_last
    have hspan : forestSpan stop (tree :: trees) = ⟨tree.span.start, last.span.stop⟩ := by
      rw [forestSpan, hlast]
      rfl
    have hinside : Laid text last.span.stop tree.span.start (tree :: trees) :=
      ⟨Nat.le_refl _, hlaid.2⟩
    rw [hspan]
    exact ⟨h.1, ⟨⟨h.2.1.fits.start, hend.fits.stop, hinside.le⟩, hinside⟩, hle⟩

end Laid

/-! ## Readings -/

/-- Whether a reader stands in a text, behind the trees that were read from an offset on, the last one
first. -/
structure Stands (text : List Char) (start : Nat) (cursor : Cursor) (forest : List Tree) : Prop where
  place : At text cursor
  laid : Laid text cursor.offset start forest.reverse

namespace Stands

variable {start : Nat} {cursor : Cursor} {forest : List Tree}

/-- A reader that has read nothing yet. -/
theorem fresh (h : At text cursor) : Stands text cursor.offset cursor [] := ⟨h, Nat.le_refl _⟩

/-- Trees read from where a reader stands are put behind its own. -/
theorem append {after : Cursor} {more : List Tree} (h : Stands text start cursor forest)
    (hmore : Stands text cursor.offset after more) : Stands text start after (more ++ forest) := by
  refine ⟨hmore.place, ?_⟩
  rw [List.reverse_append]
  exact h.laid.append hmore.laid

theorem skip (h : Stands text start cursor forest) (n : Nat) : Stands text start (cursor.skip n) forest := by
  have hnone : Stands text cursor.offset (cursor.skip n) [] :=
    ⟨h.place.skip n, Cursor.le_offset_skip n cursor⟩
  exact h.append hnone

/-- A token right where the reader stands. -/
theorem token (h : Stands text start cursor forest) (n : Nat) (kind : Kind) :
    Stands text start (cursor.skip n)
      (.mk kind .plain ⟨cursor.offset, (cursor.skip n).offset⟩ [] :: forest) := by
  have hfits : Fits text ⟨cursor.offset, (cursor.skip n).offset⟩ :=
    ⟨Text.isBoundary_of_at h.place, Text.isBoundary_of_at (h.place.skip n), Cursor.le_offset_skip n cursor⟩
  have hone : Stands text cursor.offset (cursor.skip n)
      [.mk kind .plain ⟨cursor.offset, (cursor.skip n).offset⟩ []] :=
    ⟨h.place.skip n, .singleton (Nat.le_refl _) (placed_leaf hfits kind .plain) (Nat.le_refl _)⟩
  exact h.append hone

theorem setRole (h : Stands text start cursor forest) (r : Role) :
    Stands text start cursor (setRole r forest) := by
  refine ⟨h.place, ?_⟩
  have hlaid := h.laid.setRole r
  rwa [Script.setRole, List.map_reverse] at hlaid

/-- What was read from where a reader stood is closed into a node, but for the comments in front. -/
theorem closeNode {before inner : List Tree} {after : Cursor} (h : Stands text start cursor before)
    (hinner : Stands text cursor.offset after inner) (kind : Kind) :
    Stands text start after (closeNode kind before inner after.offset) := by
  have hsplit := hinner.laid
  rw [← List.takeWhile_append_dropWhile (p := (·.kind == .comment)) (l := inner.reverse)] at hsplit
  obtain ⟨middle, hleading, hbody⟩ := hsplit.exists_middle
  have hnode := hbody.node (Text.isBoundary_of_at hinner.place) kind
  refine ⟨hinner.place, ?_⟩
  rw [Script.closeNode, List.reverse_cons, List.reverse_append, List.reverse_reverse]
  exact (h.laid.append hleading).append hnode

/-- What was read behind a tree grows it to the right. -/
theorem grow {base : Tree} {before inner : List Tree} {after : Cursor}
    (h : Stands text start cursor (base :: before)) (hinner : Stands text cursor.offset after inner)
    (kind : Kind) (role : Role) :
    let children := base.withRole role :: inner.reverse
    Stands text start after (.mk kind .plain (forestSpan after.offset children) children :: before) := by
  intro children
  have hsplit := h.laid
  rw [List.reverse_cons] at hsplit
  obtain ⟨middle, hbefore, hstart, hbase, hstop⟩ := hsplit.exists_middle
  have hchildren : Laid text after.offset middle children := by
    cases base
    exact ⟨hstart, hbase, hinner.laid.of_le hstop⟩
  refine ⟨hinner.place, ?_⟩
  rw [List.reverse_cons]
  exact hbefore.append (hchildren.node (Text.isBoundary_of_at hinner.place) kind)

end Stands

/-- A reader that stands in a text, behind the trees that it has read, still does after reading on. -/
theorem Reads.stands {cursor after : Cursor} {forest trees : List Tree}
    (hreads : Reads cursor forest after trees) :
    ∀ {start : Nat}, Stands text start cursor forest → Stands text start after trees := by
  induction hreads with
  | refl cursor forest => exact fun h => h
  | trans _ _ ih ih' => exact fun h => ih' (ih h)
  | skip cursor forest n => exact fun h => h.skip n
  | token cursor forest n hkind => exact fun h => h.token n _
  | comment forest hcomment => exact fun h => h.token _ .comment
  | node forest hkind _ ih => exact fun h => h.closeNode (ih (.fresh h.place)) _
  | role forest r _ ih => exact fun h => h.append ((ih (.fresh h.place)).setRole r)
  | inner forest _ ih => exact fun h => h.append (ih (.fresh h.place))
  | grow base forest r hkind _ ih => exact fun h => h.grow (ih (.fresh h.place)) _ r

/-- The tree of a unit is placed in the unit. -/
theorem placed_parse {d : Dialect} {unit : List Char} {tree : Tree} (h : parse d unit = .ok tree) :
    tree.Placed unit := by
  unfold parse at h
  split at h
  · rename_i cursor first rest missed hread
    cases h
    have hlaid := ((reads_program d _ _ hread).stands (Stands.fresh (Cursor.at_ofText unit))).laid
    rw [List.reverse_cons] at hlaid
    obtain ⟨middle, -, -, hplaced, -⟩ := hlaid.exists_middle
    exact hplaced
  · cases h
    have hzero : IsBoundary unit 0 := ⟨[], List.nil_prefix, rfl⟩
    exact placed_leaf ⟨hzero, hzero, Nat.le_refl 0⟩ .program .plain
  · cases h

/-! ## All nodes of a tree -/

mutual

theorem Tree.Placed.of_mem_visitsFrom : ∀ {tree : Tree}, tree.Placed text →
    ∀ {around : List Tree} {visit : Visit}, visit ∈ tree.visitsFrom around → visit.node.Placed text
  | .mk _ _ _ _, h, _, _, hvisit => by
    rw [Tree.visitsFrom] at hvisit
    rcases List.mem_cons.1 hvisit with rfl | hvisit
    · exact h
    · exact Laid.of_mem_forestVisits h.2 hvisit

theorem Laid.of_mem_forestVisits : ∀ {trees : List Tree} {start stop : Nat}, Laid text stop start trees →
    ∀ {around : List Tree} {visit : Visit}, visit ∈ forestVisits around trees → visit.node.Placed text
  | tree :: trees, _, _, h, _, _, hvisit => by
    rw [forestVisits] at hvisit
    rcases List.mem_append.1 hvisit with hvisit | hvisit
    · exact h.2.1.of_mem_visitsFrom hvisit
    · exact h.2.2.of_mem_forestVisits hvisit

end

theorem Laid.of_mem {trees : List Tree} {start stop : Nat} (h : Laid text stop start trees) {tree : Tree}
    (htree : tree ∈ trees) : tree.Placed text := by
  obtain ⟨before, after, rfl⟩ := List.append_of_mem htree
  obtain ⟨middle, -, hrest⟩ := h.exists_middle
  exact hrest.2.1

theorem Laid.bounds_of_mem {trees : List Tree} {start stop : Nat} (h : Laid text stop start trees)
    {tree : Tree} (htree : tree ∈ trees) : start ≤ tree.span.start ∧ tree.span.stop ≤ stop := by
  obtain ⟨before, after, rfl⟩ := List.append_of_mem htree
  obtain ⟨middle, hbefore, hstart, -, hrest⟩ := h.exists_middle
  exact ⟨Nat.le_trans hbefore.le hstart, hrest.le⟩

/-- Trees that are laid one after another do not overlap. -/
theorem Laid.pairwise {trees : List Tree} {start stop : Nat} (h : Laid text stop start trees) :
    trees.Pairwise fun a b => a.span.stop ≤ b.span.start := by
  induction trees generalizing start with
  | nil => exact .nil
  | cons tree trees ih => exact .cons (fun other hother => (h.2.2.bounds_of_mem hother).1) (ih h.2.2)

/-- The characters of a child are part of those of its node. -/
theorem Tree.Placed.exists_chars {tree child : Tree} (h : tree.Placed text)
    (hchild : child ∈ tree.children) :
    ∃ before after, tree.chars text = before ++ (child.chars text ++ after) ∧
      child.span.start = tree.span.start + Text.byteLength before := by
  obtain ⟨hstart, hstop⟩ := h.laid.bounds_of_mem hchild
  exact h.fits.exists_slice (h.laid.of_mem hchild).fits hstart hstop

/-- A node around something that is not empty is not empty. -/
theorem Tree.Placed.lt_of_mem {tree child : Tree} (h : tree.Placed text) (hchild : child ∈ tree.children)
    (hchars : child.chars text ≠ []) : tree.span.start < tree.span.stop := by
  obtain ⟨before, after, hparts, -⟩ := h.exists_chars hchild
  refine h.fits.lt_of_slice_ne_nil fun hnone => hchars ?_
  rw [Tree.chars, hnone] at hparts
  simp_all

/-- The children of a placed node are placed. -/
theorem Tree.Placed.of_mem_named {tree child : Tree} (h : tree.Placed text) (hchild : child ∈ tree.named) :
    child.Placed text :=
  h.laid.of_mem (List.mem_filter.1 hchild).1

end AssetAudit.Script
