import AssetAudit.Text.Search
import Mathlib.Data.List.DropRight

/-!
# Searching texts

The searches of texts in terms of lists: a text starts with what it has as a prefix, ends with what it
has as a suffix, contains what it has as an infix, on one side of a character that is not searched for,
goes on after a start with a suffix, is cut at a character as lists are split, holds its lines, is cut
at the last character where none comes after it, and is trimmed unless its ends stop that.
-/
namespace AssetAudit.Text

theorem startsWith_iff : ∀ {needle text : List Char}, startsWith needle text = true ↔ needle <+: text
  | [], _ => by simp [startsWith]
  | _ :: _, [] => by simp [startsWith]
  | a :: needle, b :: text => by
    rw [startsWith, Bool.and_eq_true, startsWith_iff, beq_iff_eq, List.cons_prefix_cons]

theorem endsWith_iff {needle text : List Char} : endsWith needle text = true ↔ needle <:+ text := by
  rw [endsWith, startsWith_iff, List.reverse_prefix]

theorem contains_iff : ∀ {needle text : List Char}, contains needle text = true ↔ needle <:+: text
  | needle, [] => by simp [contains]
  | needle, c :: text => by
    rw [contains, Bool.or_eq_true, startsWith_iff, contains_iff, List.infix_cons_iff]

/-- A text without a character is found on one side of it. -/
theorem infix_append_cons_iff {needle a b : List Char} {c : Char} (h : c ∉ needle) :
    needle <:+: a ++ c :: b ↔ needle <:+: a ∨ needle <:+: b := by
  constructor
  · rintro ⟨front, back, heq⟩
    rw [List.append_assoc] at heq
    rcases List.append_eq_append_iff.1 heq with ⟨more, hfront, hrest⟩ | ⟨more, hfront, hrest⟩
    · -- the needle starts in the text before the character
      rcases List.append_eq_append_iff.1 hrest with ⟨after, hmore, -⟩ | ⟨after, hneedle, hback⟩
      · exact .inl ⟨front, after, by rw [hfront, hmore, List.append_assoc]⟩
      · cases after with
        | nil => exact .inl ⟨front, [], by rw [hfront, hneedle]; simp⟩
        | cons d after =>
          obtain ⟨rfl, -⟩ := List.cons.inj hback
          exact absurd (by simp [hneedle]) h
    · cases more with
      | nil =>
        cases needle with
        | nil => exact .inl List.nil_infix
        | cons d needle =>
          obtain ⟨rfl, -⟩ := List.cons.inj hrest
          exact absurd List.mem_cons_self h
      | cons d more =>
        have hb : b = more ++ (needle ++ back) := (List.cons.inj hrest).2
        exact .inr ⟨more, back, by rw [hb, List.append_assoc]⟩
  · rintro (hneedle | hneedle)
    · exact hneedle.trans (List.prefix_append a (c :: b)).isInfix
    · exact hneedle.trans ((List.suffix_cons c b).trans (List.suffix_append a (c :: b))).isInfix

theorem contains_append_cons {needle : List Char} {c : Char} (h : c ∉ needle) (a b : List Char) :
    contains needle (a ++ c :: b) = (contains needle a || contains needle b) := by
  rw [Bool.eq_iff_iff, Bool.or_eq_true, contains_iff, contains_iff, contains_iff, infix_append_cons_iff h]

theorem suffix_of_after? : ∀ {needle text rest : List Char},
    after? needle text = some rest → rest <:+ text
  | [], text, rest, h => by
    cases h
    exact List.suffix_rfl
  | _ :: _, [], rest, h => by cases h
  | a :: needle, b :: text, rest, h => by
    simp only [after?, Option.ite_none_right_eq_some] at h
    exact (suffix_of_after? h.2).trans (List.suffix_cons b text)

theorem after?_eq_some_iff : ∀ {needle text rest : List Char},
    after? needle text = some rest ↔ text = needle ++ rest
  | [], text, rest => by rw [after?, Option.some.injEq, List.nil_append]
  | _ :: _, [], rest => by simp [after?]
  | a :: needle, b :: text, rest => by
    rw [after?, Option.ite_none_right_eq_some, beq_iff_eq, after?_eq_some_iff, List.cons_append,
      List.cons.injEq, eq_comm]

theorem after?_cons_of_ne {a c : Char} (h : a ≠ c) (needle text : List Char) :
    after? (a :: needle) (c :: text) = none := by
  rw [after?, if_neg (by simpa using h)]

theorem splitAt_eq_splitOn (c : Char) (text : List Char) :
    Text.splitAt c text = text.splitOn c := by
  induction text with
  | nil => rfl
  | cons d text ih =>
    rw [List.splitOn_cons_eq_if_modifyHead]
    simp only [Text.splitAt, ih]
    split
    · rfl
    · cases h : text.splitOn c with
      | nil => exact absurd h (List.splitOn_ne_nil c text)
      | cons part parts => rfl

/-- The part before the first cut starts the text, and every other part stands in it. -/
theorem infix_of_splitAt (c : Char) : ∀ text : List Char, ∃ first rest,
    Text.splitAt c text = first :: rest ∧ first <+: text ∧ ∀ part ∈ rest, part <:+: text
  | [] => ⟨[], [], rfl, List.nil_prefix, by simp⟩
  | d :: text => by
    obtain ⟨first, rest, hsplit, hfirst, hrest⟩ := infix_of_splitAt c text
    have hinfix : ∀ part ∈ rest, part <:+: d :: text :=
      fun part hpart => List.infix_cons (hrest part hpart)
    rw [Text.splitAt, hsplit]
    split
    · refine ⟨[], first :: rest, rfl, List.nil_prefix, ?_⟩
      intro part hpart
      rcases List.mem_cons.1 hpart with rfl | hpart
      · exact List.infix_cons hfirst.isInfix
      · exact hinfix part hpart
    · exact ⟨d :: first, rest, rfl, List.cons_prefix_cons.2 ⟨rfl, hfirst⟩, hinfix⟩

theorem exists_of_mem_linesOf {line : List Char} : ∀ {parts : List (List Char)},
    line ∈ linesOf parts → ∃ part ∈ parts, line <+: part
  | [last], h => by
    rw [linesOf] at h
    split at h
    · cases h
    · rw [List.mem_singleton.1 h]
      exact ⟨last, List.mem_singleton_self last, List.prefix_rfl⟩
  | part :: second :: parts, h => by
    have hcons : line ∈ chompReturn part :: linesOf (second :: parts) := h
    rcases List.mem_cons.1 hcons with rfl | h
    · refine ⟨part, List.mem_cons_self, ?_⟩
      unfold chompReturn
      split
      · exact List.dropLast_prefix part
      · exact List.prefix_rfl
    · obtain ⟨other, hother, hline⟩ := exists_of_mem_linesOf h
      exact ⟨other, List.mem_cons_of_mem _ hother, hline⟩

/-- A line stands in its text. -/
theorem infix_of_mem_lines {line text : List Char} (h : line ∈ lines text) : line <:+: text := by
  obtain ⟨part, hpart, hline⟩ := exists_of_mem_linesOf h
  obtain ⟨first, rest, hsplit, hfirst, hrest⟩ := infix_of_splitAt '\n' text
  rw [hsplit] at hpart
  refine hline.isInfix.trans ?_
  rcases List.mem_cons.1 hpart with rfl | hpart
  · exact hfirst.isInfix
  · exact hrest part hpart

theorem splitLast?_append {c : Char} (before : List Char) {after : List Char} (h : c ∉ after) :
    splitLast? c (before ++ c :: after) = some (before, after) := by
  have hafter : ∀ d ∈ after.reverse, (d != c) = true := by
    intro d hd
    have hne : d ≠ c := fun he => h (he ▸ List.mem_reverse.1 hd)
    simpa using hne
  have hback : (before ++ c :: after).reverse = after.reverse ++ c :: before.reverse := by simp
  unfold splitLast?
  rw [if_pos (by simp), hback]
  simp only [List.dropWhile_append_of_pos hafter, List.takeWhile_append_of_pos hafter]
  simp

section Trim

variable {ok : Char → Bool} {text : List Char}

/-- Characters of the class around a text are trimmed with it. -/
theorem trimMatches_between {c : Char} (h : ok c = true) :
    trimMatches ok (c :: (text ++ [c])) = trimMatches ok text := by
  rw [trimMatches, trimMatches, List.dropWhile_cons_of_pos h, List.dropWhile_append]
  split
  · rename_i hnone
    rw [List.isEmpty_iff.1 hnone, List.dropWhile_cons_of_pos h]
    rfl
  · rw [List.reverse_append, List.reverse_singleton, List.singleton_append,
      List.dropWhile_cons_of_pos h]

/-- Nothing is trimmed exactly if no end of the text is in the class. -/
theorem trimMatches_eq_self_iff :
    trimMatches ok text = text ↔ text.head?.any ok = false ∧ text.getLast?.any ok = false := by
  have hfront : text.dropWhile ok = text ↔ text.head?.any ok = false := by
    cases text <;> simp [List.dropWhile_eq_self_iff]
  have hback : text.rdropWhile ok = text ↔ text.getLast?.any ok = false := by
    rcases List.eq_nil_or_concat text with rfl | ⟨front, last, rfl⟩ <;>
      simp
  rw [← hfront, ← hback]
  constructor
  · intro h
    have hkept : text.dropWhile ok = text := by
      refine (List.dropWhile_suffix ok).eq_of_length_le ?_
      calc text.length = (trimMatches ok text).length := by rw [h]
        _ ≤ (text.dropWhile ok).length := (List.rdropWhile_prefix ok _).length_le
    refine ⟨hkept, ?_⟩
    conv => rhs; rw [← h]
    rw [trimMatches, hkept]
    rfl
  · rintro ⟨hkept, hkept'⟩
    rw [trimMatches, hkept]
    exact hkept'

end Trim

end AssetAudit.Text
