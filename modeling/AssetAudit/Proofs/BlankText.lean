import AssetAudit.Text.Blank
import Mathlib.Data.List.Infix
import Mathlib.Data.List.TakeWhile

/-!
# Blanks at the front of a text

A blank of ASCII is a blank. A text is cut at the first character that is none of a class
(`takeWhile_front`, `dropWhile_front`), and blanks come off the front of two texts one after another
(`trimStart_append`).
-/
namespace AssetAudit.Text

theorem isAsciiBlank_iff {c : Char} :
    isAsciiBlank c = true ↔ c.toNat = 32 ∨ 9 ≤ c.toNat ∧ c.toNat ≤ 13 := by
  have hspace : c = ' ' ↔ c.toNat = 32 := by
    constructor
    · rintro rfl
      rfl
    · intro h
      rw [← Char.ofNat_toNat c, h]
  rw [isAsciiBlank, Bool.or_eq_true, Bool.and_eq_true, beq_iff_eq, decide_eq_true_iff,
    decide_eq_true_iff, hspace, Char.le_def, Char.le_def, UInt32.le_iff_toNat_le,
    UInt32.le_iff_toNat_le]
  rfl

theorem isBlank_of_isAsciiBlank {c : Char} (h : isAsciiBlank c = true) : isBlank c = true := by
  rw [isAsciiBlank_iff] at h
  simp only [isBlank, Bool.or_eq_true, Bool.and_eq_true, decide_eq_true_eq, beq_iff_eq]
  omega

theorem isAsciiBlank_eq_false {c : Char} (h : isBlank c = false) : isAsciiBlank c = false := by
  rw [← Bool.not_eq_true]
  intro hblank
  rw [isBlank_of_isAsciiBlank hblank] at h
  cases h

/-- Blanks of ASCII only. -/
def Blanks (text : List Char) : Prop := ∀ c ∈ text, isAsciiBlank c = true

theorem Blanks.isBlank {gap : List Char} (h : Blanks gap) : ∀ c ∈ gap, isBlank c = true :=
  fun c hc => isBlank_of_isAsciiBlank (h c hc)

theorem Blanks.not_mem {gap : List Char} {c : Char} (h : Blanks gap) (hc : isAsciiBlank c = false) :
    c ∉ gap := by
  intro hmem
  rw [h c hmem] at hc
  cases hc

theorem takeWhile_front {p : Char → Bool} {front rest : List Char} {c : Char}
    (hfront : ∀ d ∈ front, p d = true) (hc : p c = false) : (front ++ c :: rest).takeWhile p = front := by
  rw [List.takeWhile_append_of_pos hfront, List.takeWhile_cons_of_neg (by simp [hc]), List.append_nil]

theorem dropWhile_front {p : Char → Bool} {front rest : List Char} {c : Char}
    (hfront : ∀ d ∈ front, p d = true) (hc : p c = false) :
    (front ++ c :: rest).dropWhile p = c :: rest := by
  rw [List.dropWhile_append_of_pos hfront, List.dropWhile_cons_of_neg (by simp [hc])]

theorem drop_length_takeWhile (p : Char → Bool) : ∀ text : List Char,
    text.drop (text.takeWhile p).length = text.dropWhile p
  | [] => rfl
  | c :: text => by
    by_cases hc : p c = true
    · rw [List.takeWhile_cons_of_pos hc, List.dropWhile_cons_of_pos hc, List.length_cons,
        List.drop_succ_cons, drop_length_takeWhile p text]
    · rw [List.takeWhile_cons_of_neg hc, List.dropWhile_cons_of_neg hc, List.length_nil, List.drop_zero]

/-- A test of the characters of a text runs over the text, not over all the characters there are. -/
instance (priority := 2000) decidableCharAll {p : Char → Prop} [DecidablePred p] (text : List Char) :
    Decidable (∀ c, c ∈ text → p c) :=
  List.decidableBAll p text

instance (priority := 2000) decidableCharExists {p : Char → Prop} [DecidablePred p] (text : List Char) :
    Decidable (∃ c, c ∈ text ∧ p c) :=
  List.decidableBEx p text

instance decidableSuffixAll {p : List Char → Prop} [DecidablePred p] (text : List Char) :
    Decidable (∀ part, part <:+ text → p part) :=
  decidable_of_iff (∀ part ∈ text.tails, p part) (by simp only [List.mem_tails])

theorem suffix_append_cases {part a b : List Char} (h : part <:+ a ++ b) :
    part <:+ b ∨ ∃ front, front <:+ a ∧ front ≠ [] ∧ part = front ++ b := by
  rcases List.suffix_or_suffix_of_suffix h (List.suffix_append a b) with hb | ⟨front, rfl⟩
  · exact .inl hb
  · rcases eq_or_ne front [] with rfl | hne
    · exact .inl List.suffix_rfl
    · obtain ⟨before, hbefore⟩ := h
      rw [← List.append_assoc] at hbefore
      exact .inr ⟨front, ⟨before, List.append_cancel_right hbefore⟩, hne, rfl⟩

theorem trimStart_append (a b : List Char) :
    trimStart a = [] ∧ trimStart (a ++ b) = trimStart b ∨
      trimStart a ≠ [] ∧ trimStart (a ++ b) = trimStart a ++ b := by
  unfold trimStart
  rw [List.dropWhile_append]
  rcases eq_or_ne (a.dropWhile isBlank) [] with h | h
  · exact .inl ⟨h, by rw [h]; rfl⟩
  · exact .inr ⟨h, by rw [if_neg (by simpa using h)]⟩

theorem trimStart_blanks {gap : List Char} (h : Blanks gap) (text : List Char) :
    trimStart (gap ++ text) = trimStart text :=
  List.dropWhile_append_of_pos h.isBlank

theorem trimStart_cons {c : Char} (h : isBlank c = false) (text : List Char) :
    trimStart (c :: text) = c :: text :=
  List.dropWhile_cons_of_neg (by simp [h])

/-- Blanks come off both ends of a text. -/
theorem trim_blanks {before after text : List Char} {a b : Char} (hbefore : Blanks before)
    (hafter : Blanks after) (ha : isBlank a = false) (hb : isBlank b = false) :
    trim (before ++ a :: (text ++ b :: after)) = a :: (text ++ [b]) := by
  have hback : ∀ c ∈ after.reverse, isBlank c = true := fun c hc => hafter.isBlank c (List.mem_reverse.1 hc)
  have hreverse : (a :: (text ++ b :: after)).reverse = after.reverse ++ b :: (a :: text).reverse := by
    simp
  rw [trim, trimStart_blanks hbefore, trimStart_cons ha, trimEnd, hreverse, dropWhile_front hback hb]
  simp

end AssetAudit.Text
