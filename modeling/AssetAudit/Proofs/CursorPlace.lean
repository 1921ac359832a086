import AssetAudit.Text.Cursor
import AssetAudit.Text.Position
import Mathlib.Data.List.Infix

/-!
# Where a reader stands

A cursor stands in a text if its rest is what follows as many bytes as its offset counts (`At`).
Stepping over characters keeps it there, and the offset alone tells the rest (`At.dropBytes_eq`). So
places found one after another have ever shorter rests (`At.length_lt`), and what a reader finds on its
way is in the order of the text (`InOrder`).
-/
namespace AssetAudit

namespace Text

theorem byteLength_append : ∀ a b : List Char, byteLength (a ++ b) = byteLength a + byteLength b
  | [], b => by simp [byteLength]
  | c :: a, b => by
    rw [List.cons_append, byteLength, byteLength, byteLength_append a b, Nat.add_assoc]

theorem dropBytes_append : ∀ front rest : List Char, dropBytes (front ++ rest) (byteLength front) = rest
  | [], rest => by
    cases rest <;> rfl
  | c :: front, rest => by
    have hsize := c.utf8Size_pos
    obtain ⟨n, hn⟩ : ∃ n, byteLength (c :: front) = n + 1 := by
      rw [byteLength]
      exact ⟨c.utf8Size + byteLength front - 1, by omega⟩
    have hleft : n + 1 - c.utf8Size = byteLength front := by
      rw [← hn, byteLength]
      omega
    rw [hn, List.cons_append, dropBytes, hleft, dropBytes_append front rest]

end Text

namespace Cursor

/-- Whether a cursor stands in a text. -/
def At (text : List Char) (c : Cursor) : Prop :=
  ∃ front, text = front ++ c.rest ∧ c.offset = Text.byteLength front

variable {text : List Char} {c d : Cursor}

theorem at_ofText (text : List Char) : At text (ofText text) := ⟨[], rfl, rfl⟩

theorem rest_skip : ∀ (n : Nat) (c : Cursor), (c.skip n).rest = c.rest.drop n
  | 0, _ => rfl
  | _ + 1, ⟨[], _⟩ => rfl
  | n + 1, ⟨x :: rest, offset⟩ => rest_skip n ⟨rest, offset + x.utf8Size⟩

theorem offset_skip : ∀ (n : Nat) (c : Cursor),
    (c.skip n).offset = c.offset + Text.byteLength (c.rest.take n)
  | 0, _ => rfl
  | _ + 1, ⟨[], _⟩ => rfl
  | n + 1, ⟨x :: rest, offset⟩ => by
    rw [skip, offset_skip n, List.take_succ_cons, Text.byteLength, Nat.add_assoc]

theorem le_offset_skip (n : Nat) (c : Cursor) : c.offset ≤ (c.skip n).offset := by
  rw [offset_skip]
  exact Nat.le_add_right _ _

theorem lt_offset_skip {n : Nat} (hn : 0 < n) (hrest : c.rest ≠ []) :
    c.offset < (c.skip n).offset := by
  obtain ⟨x, rest, hx⟩ := List.exists_cons_of_ne_nil hrest
  obtain ⟨m, rfl⟩ : ∃ m, n = m + 1 := ⟨n - 1, by omega⟩
  have hsize := x.utf8Size_pos
  rw [offset_skip, hx, List.take_succ_cons, Text.byteLength]
  omega

theorem At.skip (h : At text c) (n : Nat) : At text (c.skip n) := by
  obtain ⟨front, htext, hoffset⟩ := h
  refine ⟨front ++ c.rest.take n, ?_, ?_⟩
  · rw [rest_skip, List.append_assoc, List.take_append_drop, ← htext]
  · rw [offset_skip, hoffset, Text.byteLength_append]

/-- The rest of a text from an offset on is what a cursor there has before it. -/
theorem At.dropBytes_eq (h : At text c) : Text.dropBytes text c.offset = c.rest := by
  obtain ⟨front, htext, hoffset⟩ := h
  rw [hoffset, htext, Text.dropBytes_append]

theorem At.suffix (h : At text c) : c.rest <:+ text := by
  obtain ⟨front, htext, -⟩ := h
  exact ⟨front, htext.symm⟩

/-- Of two places in a text the later one has less before it. -/
theorem At.length_lt (hc : At text c) (hd : At text d) (h : c.offset < d.offset) :
    d.rest.length < c.rest.length := by
  obtain ⟨front, htext, hoffset⟩ := hc
  obtain ⟨front', htext', hoffset'⟩ := hd
  by_contra hlong
  rw [not_lt] at hlong
  have hfront : front' <+: front := by
    refine List.prefix_of_prefix_length_le ⟨d.rest, htext'.symm⟩ ⟨c.rest, htext.symm⟩ ?_
    have hlength := congrArg List.length (htext.symm.trans htext')
    rw [List.length_append, List.length_append] at hlength
    omega
  obtain ⟨between, rfl⟩ := hfront
  rw [Text.byteLength_append] at hoffset
  omega

/-- Whether a cursor stands in a text, no earlier than another. -/
def Follows (text : List Char) (c after : Cursor) : Prop := At text after ∧ c.offset ≤ after.offset

theorem Follows.refl (h : At text c) : Follows text c c := ⟨h, Nat.le_refl _⟩

theorem Follows.trans {a : Cursor} (h : Follows text a c) (h' : Follows text c d) :
    Follows text a d := ⟨h'.1, Nat.le_trans h.2 h'.2⟩

theorem Follows.skip (h : Follows text c d) (n : Nat) : Follows text c (d.skip n) :=
  ⟨h.1.skip n, Nat.le_trans h.2 (le_offset_skip n d)⟩

/-! ## What is found in a text -/

/-- Things found in a text, with their offsets: they stand in the order of the text, and at each offset
one `Starts`. -/
structure InOrder {α : Type} (Starts : Cursor → α → Prop) (text : List Char)
    (entries : List (Nat × α)) : Prop where
  sorted : entries.Pairwise (·.1 < ·.1)
  starts : ∀ entry ∈ entries, ∃ c, At text c ∧ c.offset = entry.1 ∧ Starts c entry.2

namespace InOrder

variable {α : Type} {Starts : Cursor → α → Prop} {entries others : List (Nat × α)}

theorem nil : InOrder Starts text [] := ⟨.nil, by rintro _ ⟨⟩⟩

theorem singleton {found : α} (hc : At text c) (h : Starts c found) :
    InOrder Starts text [(c.offset, found)] := by
  refine ⟨List.pairwise_singleton _ _, ?_⟩
  intro entry hentry
  rw [List.mem_singleton.1 hentry]
  exact ⟨c, hc, rfl, h⟩

theorem append (h : InOrder Starts text entries) (h' : InOrder Starts text others)
    (hlt : ∀ entry ∈ entries, ∀ other ∈ others, entry.1 < other.1) :
    InOrder Starts text (entries ++ others) := by
  refine ⟨List.pairwise_append.2 ⟨h.sorted, h'.sorted, hlt⟩, ?_⟩
  intro entry hentry
  rcases List.mem_append.1 hentry with hentry | hentry
  · exact h.starts entry hentry
  · exact h'.starts entry hentry

theorem sublist (h : InOrder Starts text entries) (hsub : others.Sublist entries) :
    InOrder Starts text others :=
  ⟨h.sorted.sublist hsub, fun entry hentry => h.starts entry (hsub.subset hentry)⟩

end InOrder

end Cursor
end AssetAudit
