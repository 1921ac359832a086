import AssetAudit.Proofs.TextSearch
import AssetAudit.Proofs.TreePlace
import Mathlib.Data.List.Pairwise

/-!
# Where the comments of a unit stand

Reading a unit puts every comment it passes among its trees, so the `comments` of a unit are those of the
trees that reading leaves. Each stands in the unit where its span says (`isComment_of_mem_comments`), and
they stand in order and apart (`pairwise_comments`). Told by the indices of their characters, a comment
stands between two indices (`IsComment.exists_holds_iff`), and no character stands in two comments
(`eq_of_holds`). A comment that does not open with a slash and a star runs to the end of its line
(`comment?_stop`).
-/
namespace AssetAudit.Script

open Cursor (At)

variable {text : List Char} {span : Span}

/-! ## Comments of trees -/

mutual

/-- The spans of the comments of a tree, in their order. -/
def Tree.comments : Tree → List Span
  | .mk kind _ span children => if kind = .comment then [span] else forestComments children

def forestComments : List Tree → List Span
  | [] => []
  | tree :: trees => tree.comments ++ forestComments trees

end

theorem Tree.comments_of_ne {kind : Kind} (h : kind ≠ .comment) (role : Role) (span : Span)
    (children : List Tree) : (Tree.mk kind role span children).comments = forestComments children := by
  rw [Tree.comments, if_neg h]

theorem Tree.comments_withRole (tree : Tree) (r : Role) : (tree.withRole r).comments = tree.comments := by
  cases tree
  simp only [withRole, kind, Tree.span, children, comments]

theorem mem_forestComments : ∀ {trees : List Tree}, span ∈ forestComments trees ↔
    ∃ tree ∈ trees, span ∈ tree.comments
  | [] => by simp [forestComments]
  | tree :: trees => by
    rw [forestComments, List.mem_append, mem_forestComments]
    simp only [List.mem_cons, exists_eq_or_imp]

/-! ## Comments stand in the text -/

/-- Whether a comment of a text has a span. -/
def IsComment (text : List Char) (span : Span) : Prop :=
  ∃ cursor atStatement n, At text cursor ∧ comment? atStatement cursor.rest = some n ∧
    span = ⟨cursor.offset, (cursor.skip n).offset⟩

/-- Whether all comments of a forest are comments of a text. -/
def Commented (text : List Char) (forest : List Tree) : Prop :=
  ∀ tree ∈ forest, ∀ span ∈ tree.comments, IsComment text span

namespace Commented

variable {forest inner : List Tree}

theorem nil : Commented text [] := by
  intro tree htree
  cases htree

theorem cons {tree : Tree} (htree : ∀ span ∈ tree.comments, IsComment text span)
    (h : Commented text forest) : Commented text (tree :: forest) :=
  List.forall_mem_cons.2 ⟨htree, h⟩

theorem append (h : Commented text inner) (h' : Commented text forest) :
    Commented text (inner ++ forest) := by
  intro tree htree
  rcases List.mem_append.1 htree with htree | htree
  · exact h tree htree
  · exact h' tree htree

/-- A node has the comments of its children. -/
theorem node {kind : Kind} (hkind : kind ≠ .comment) {children : List Tree} (h : Commented text children)
    (hforest : Commented text forest) (span : Span) :
    Commented text (.mk kind .plain span children :: forest) := by
  refine hforest.cons fun other hother => ?_
  rw [Tree.comments_of_ne hkind, mem_forestComments] at hother
  obtain ⟨tree, htree, hother⟩ := hother
  exact h tree htree other hother

theorem closeNode {kind : Kind} (hkind : kind ≠ .comment) (h : Commented text inner)
    (hforest : Commented text forest) (offset : Nat) :
    Commented text (closeNode kind forest inner offset) := by
  have hleading : Commented text (inner.reverse.takeWhile (·.kind == .comment)).reverse := by
    intro tree htree
    exact h tree (List.mem_reverse.1 ((List.takeWhile_prefix _).subset (List.mem_reverse.1 htree)))
  have hbody : Commented text (inner.reverse.dropWhile (·.kind == .comment)) := by
    intro tree htree
    exact h tree (List.mem_reverse.1 ((List.dropWhile_suffix _).subset htree))
  exact hbody.node hkind (hleading.append hforest) _

theorem setRole (h : Commented text forest) (r : Role) : Commented text (setRole r forest) := by
  intro tree htree
  obtain ⟨other, hother, rfl⟩ := List.mem_map.1 htree
  split
  · exact h other hother
  · rw [Tree.comments_withRole]
    exact h other hother

end Commented

/-- Reading on keeps a reader in its text, and the comments it has read are comments of the text. -/
theorem Reads.commented {cursor after : Cursor} {forest trees : List Tree}
    (hreads : Reads cursor forest after trees) (hat : At text cursor) :
    At text after ∧ (Commented text forest → Commented text trees) := by
  induction hreads with
  | refl cursor forest => exact ⟨hat, fun h => h⟩
  | trans _ _ ih ih' =>
    obtain ⟨hmiddle, hfirst⟩ := ih hat
    obtain ⟨hafter, hsecond⟩ := ih' hmiddle
    exact ⟨hafter, fun h => hsecond (hfirst h)⟩
  | skip cursor forest n => exact ⟨hat.skip n, fun h => h⟩
  | token cursor forest n hkind => exact ⟨hat.skip n, fun h => Commented.nil.node hkind h _⟩
  | comment forest hcomment =>
    refine ⟨hat.skip _, fun h => h.cons fun other hother => ?_⟩
    rw [Tree.comments, if_pos rfl, List.mem_singleton] at hother
    exact ⟨_, _, _, hat, hcomment, hother⟩
  | node forest hkind _ ih =>
    obtain ⟨hafter, hinner⟩ := ih hat
    exact ⟨hafter, fun h => (hinner .nil).closeNode hkind h _⟩
  | role forest r _ ih =>
    obtain ⟨hafter, hinner⟩ := ih hat
    exact ⟨hafter, fun h => ((hinner .nil).setRole r).append h⟩
  | inner forest _ ih =>
    obtain ⟨hafter, hinner⟩ := ih hat
    exact ⟨hafter, fun h => (hinner .nil).append h⟩
  | grow base forest r hkind _ ih =>
    obtain ⟨hafter, hinner⟩ := ih hat
    refine ⟨hafter, fun h => ?_⟩
    obtain ⟨hbase, hforest⟩ := List.forall_mem_cons.1 h
    refine Commented.node hkind (Commented.cons ?_ ?_) hforest _
    · rwa [Tree.comments_withRole]
    · intro tree htree
      exact hinner .nil tree (List.mem_reverse.1 htree)

/-! ## Comments stand in order -/

/-- Whether spans stand one after another between two offsets. -/
structure InLine (start stop : Nat) (spans : List Span) : Prop where
  apart : spans.Pairwise (·.stop ≤ ·.start)
  inside : ∀ span ∈ spans, start ≤ span.start ∧ span.stop ≤ stop

mutual

theorem Tree.Placed.inLine_comments : ∀ {tree : Tree}, tree.Placed text →
    InLine tree.span.start tree.span.stop tree.comments
  | .mk kind _ span children, h => by
    rw [Tree.comments]
    split
    · exact ⟨List.pairwise_singleton _ _, fun other hother => by
        rw [List.mem_singleton.1 hother]
        exact ⟨Nat.le_refl _, Nat.le_refl _⟩⟩
    · exact h.2.inLine_comments

theorem Laid.inLine_comments : ∀ {trees : List Tree} {start stop : Nat}, Laid text stop start trees →
    InLine start stop (forestComments trees)
  | [], _, _, _ => ⟨.nil, by simp [forestComments]⟩
  | tree :: trees, _, _, ⟨hstart, htree, htrees⟩ => by
    have hfirst := htree.inLine_comments
    have hrest := htrees.inLine_comments
    have hle := htree.fits.le
    have hend := htrees.le
    rw [forestComments]
    refine ⟨List.pairwise_append.2 ⟨hfirst.apart, hrest.apart, ?_⟩, ?_⟩
    · intro a ha b hb
      exact Nat.le_trans (hfirst.inside a ha).2 (hrest.inside b hb).1
    · intro span hspan
      rcases List.mem_append.1 hspan with hspan | hspan
      · have := hfirst.inside span hspan
        omega
      · have := hrest.inside span hspan
        omega

end

/-! ## Comments of a unit -/

/-- The spans of the comments of a unit, in their order, those before its first token included. A unit that
cannot be read has none. -/
def comments (d : Dialect) (unit : List Char) : List Span :=
  match read (grammar d) ⟨d.typed, false, true⟩ (Grammar.depth unit) program
      ⟨Cursor.ofText unit, [], 0⟩ with
  | .done q => forestComments q.forest.reverse
  | .failed _ => []

variable {d : Dialect} {unit : List Char}

theorem isComment_of_mem_comments (h : span ∈ comments d unit) : IsComment unit span := by
  unfold comments at h
  split at h
  · rename_i q hread
    obtain ⟨-, hcommented⟩ := (reads_program d _ _ hread).commented (Cursor.at_ofText unit)
    obtain ⟨tree, htree, hspan⟩ := mem_forestComments.1 h
    exact hcommented .nil tree (List.mem_reverse.1 htree) span hspan
  · cases h

theorem pairwise_comments : (comments d unit).Pairwise (·.stop ≤ ·.start) := by
  unfold comments
  split
  · rename_i q hread
    exact ((reads_program d _ _ hread).stands (Stands.fresh (Cursor.at_ofText unit))).laid.inLine_comments.apart
  · exact .nil

/-! ## The characters of a comment -/

/-- Whether a character stands in a span, by its index. -/
def Holds (unit : List Char) (span : Span) (i : Nat) : Prop :=
  span.start ≤ Text.byteLength (unit.take i) ∧ Text.byteLength (unit.take i) < span.stop

instance (unit : List Char) (span : Span) (i : Nat) : Decidable (Holds unit span i) :=
  inferInstanceAs (Decidable (_ ∧ _))

/-- A comment stands between two indices. -/
theorem IsComment.exists_holds_iff (h : IsComment unit span) :
    ∃ a n atStatement, comment? atStatement (unit.drop a) = some n ∧
      Text.dropBytes unit span.start = unit.drop a ∧
      ∀ i < unit.length, (Holds unit span i ↔ a ≤ i ∧ i < a + n) := by
  obtain ⟨cursor, atStatement, n, hat, hcomment, rfl⟩ := h
  have hrest := hat.dropBytes_eq
  obtain ⟨front, rfl, hoffset⟩ := hat
  refine ⟨front.length, n, atStatement, ?_, ?_, fun i hi => ?_⟩
  · rwa [List.drop_left]
  · rw [hrest, List.drop_left]
  · have hstart : cursor.offset = Text.byteLength ((front ++ cursor.rest).take front.length) := by
      rw [List.take_left, hoffset]
    have hstop : (cursor.skip n).offset =
        Text.byteLength ((front ++ cursor.rest).take (front.length + n)) := by
      rw [Cursor.offset_skip, hoffset, ← Text.byteLength_append, List.take_length_add_append]
    rw [Holds, hstart, hstop, Text.byteLength_take_lt_iff hi, ← Nat.not_lt,
      Text.byteLength_take_lt_iff hi, Nat.not_lt]

/-- No character stands in two comments. -/
theorem eq_of_holds {other : Span} {i : Nat} (hspan : span ∈ comments d unit)
    (hother : other ∈ comments d unit) (h : Holds unit span i) (h' : Holds unit other i) : span = other := by
  by_contra hne
  have hsymm : Std.Symm fun a b : Span => a.stop ≤ b.start ∨ b.stop ≤ a.start := ⟨fun _ _ h => h.symm⟩
  have hapart : (comments d unit).Pairwise fun a b => a.stop ≤ b.start ∨ b.stop ≤ a.start :=
    pairwise_comments.imp Or.inl
  have hcases := hapart.forall hspan hother hne
  obtain ⟨hstart, hstop⟩ := h
  obtain ⟨hstart', hstop'⟩ := h'
  omega

/-- Whether a comment opens with a slash and a star. -/
def isBlock (unit : List Char) (span : Span) : Bool :=
  Text.startsWith "/*".toList (Text.dropBytes unit span.start)

/-- Whether a character of a unit stands in a comment of one of the two kinds, by its index. -/
def InComment (d : Dialect) (unit : List Char) (block : Bool) (i : Nat) : Prop :=
  ∃ span ∈ comments d unit, isBlock unit span = block ∧ Holds unit span i

instance (d : Dialect) (unit : List Char) (block : Bool) (i : Nat) : Decidable (InComment d unit block i) :=
  inferInstanceAs (Decidable (∃ span ∈ comments d unit, isBlock unit span = block ∧ Holds unit span i))

/-- Whether a character of a unit stands in no comment, by its index. -/
def Outside (d : Dialect) (unit : List Char) (i : Nat) : Prop :=
  ∀ span ∈ comments d unit, ¬ Holds unit span i

instance (d : Dialect) (unit : List Char) (i : Nat) : Decidable (Outside d unit i) :=
  inferInstanceAs (Decidable (∀ span ∈ comments d unit, ¬ Holds unit span i))

/-! ## How far comments run -/

/-- Whether a character ends a comment that runs to the end of its line. -/
def endsComment (c : Char) : Bool := isLineBreak c || c == '\r'

theorem lineComment_cons (c : Char) (rest : List Char) :
    lineComment (c :: rest) = if endsComment c then 0 else lineComment rest + 1 := by
  change ((c :: rest).takeWhile fun c => !endsComment c).length = _
  rw [List.takeWhile_cons]
  cases endsComment c <;> rfl

theorem lineComment_stop (text : List Char) : ∀ c ∈ text[lineComment text]?, endsComment c = true := by
  induction text with
  | nil => simp
  | cons c rest ih =>
    rw [lineComment_cons]
    split
    · simpa
    · simpa using ih

/-- A comment that does not open with a slash and a star runs to the end of its line. -/
theorem comment?_stop {atStatement : Bool} {n : Nat} (h : comment? atStatement text = some n)
    (hblock : ¬ "/*".toList <+: text) : ∀ c ∈ text[n]?, endsComment c = true := by
  unfold comment? at h
  split at h
  · rename_i rest
    obtain rfl := Option.some.inj h
    exact lineComment_stop rest
  · rename_i rest
    exact absurd ⟨rest, rfl⟩ hblock
  · rename_i rest
    split at h
    · obtain rfl := Option.some.inj h
      exact lineComment_stop rest
    · cases h
  · rename_i rest
    split at h
    · obtain rfl := Option.some.inj h
      exact lineComment_stop rest
    · cases h
  · cases h

end AssetAudit.Script
