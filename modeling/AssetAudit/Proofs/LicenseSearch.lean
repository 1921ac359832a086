import AssetAudit.License
import AssetAudit.Proofs.TextSearch
import Mathlib.Data.List.TakeWhile
import Mathlib.Order.Monotone.Basic

/-!
# Searches that copy a text

A search looks at one place of a text after another. At each it is told how to copy the next characters,
and looks again behind them (`place`). The characters that it is told to make blank are `Blanked`, and
these are the only ones that a copy changes (`getElem?_copy`): the k-th look copies what stands between
the k-th place and the next (`getElem?_copy_place`), and every index stands between two places
(`exists_place`).
-/
namespace AssetAudit.License

/-- The number of characters until a search looks again. -/
def Copy.width : Copy → Nat
  | plain n | blanked n => max 1 n

/-- What becomes of a character that is copied. -/
def Copy.apply : Copy → Char → Char
  | blanked (_ + 1) => blankChar
  | _ => id

theorem Copy.width_pos (state : Copy) : 0 < state.width := by
  cases state <;> simp only [width] <;> omega

variable {next : List Char → Copy}

/-! ## Copying -/

theorem copy_nil (state : Copy) : copy next state [] = [] := by
  rw [copy]

/-- Characters are copied as they are until the search goes on. -/
theorem copy_plain (n : Nat) (text : List Char) :
    copy next (.plain n) text = text.take n ++ copy next (.plain 0) (text.drop n) := by
  induction n generalizing text with
  | zero => simp
  | succ n ih =>
    cases text with
    | nil => simp [copy_nil]
    | cons c rest =>
      rw [copy, ih]
      simp

theorem copy_blanked_zero (text : List Char) :
    copy next (.blanked 0) text = copy next (.plain 0) text := by
  cases text with
  | nil => simp [copy_nil]
  | cons c rest => simp [copy]

/-- Characters are made blank until the search goes on. -/
theorem copy_blanked (n : Nat) (text : List Char) :
    copy next (.blanked n) text = (text.take n).map blankChar ++ copy next (.plain 0) (text.drop n) := by
  induction n generalizing text with
  | zero => simp [copy_blanked_zero]
  | succ n ih =>
    cases text with
    | nil => simp [copy_nil]
    | cons c rest =>
      rw [copy, ih]
      simp

/-- What the search is told to do at a place is done to all characters up to the next place. -/
theorem copy_step (text : List Char) :
    copy next (.plain 0) text = (text.take (next text).width).map (next text).apply ++
      copy next (.plain 0) (text.drop (next text).width) := by
  cases text with
  | nil => simp [copy_nil]
  | cons c rest =>
    cases hnext : next (c :: rest) with
    | plain n =>
      cases n with
      | zero => simp [copy, hnext, Copy.width, Copy.apply]
      | succ n =>
        simp only [copy, hnext, Copy.apply]
        rw [copy_plain]
        simp [Copy.width]
    | blanked n =>
      cases n with
      | zero => simp [copy, hnext, Copy.width, Copy.apply]
      | succ n =>
        simp only [copy, hnext, Copy.apply]
        rw [copy_blanked]
        simp [Copy.width]

/-! ## Places -/

/-- Where a search looks for the `k`-th time. -/
def place (next : List Char → Copy) (text : List Char) : Nat → Nat
  | 0 => 0
  | k + 1 => place next text k + (next (text.drop (place next text k))).width

variable {text : List Char}

theorem place_lt_succ (k : Nat) : place next text k < place next text (k + 1) := by
  rw [place]
  exact Nat.lt_add_of_pos_right (Copy.width_pos _)

theorem strictMono_place : StrictMono (place next text) := strictMono_nat_of_lt_succ place_lt_succ

/-- Every index stands between two places. -/
theorem exists_place (i : Nat) : ∃ k, place next text k ≤ i ∧ i < place next text (k + 1) := by
  induction i with
  | zero => exact ⟨0, Nat.le_refl 0, place_lt_succ 0⟩
  | succ i ih =>
    obtain ⟨k, hle, hlt⟩ := ih
    by_cases hnext : i + 1 < place next text (k + 1)
    · exact ⟨k, by omega, hnext⟩
    · have hfar : place next text (k + 1) < place next text (k + 1 + 1) := place_lt_succ (k + 1)
      exact ⟨k + 1, by omega, by omega⟩

theorem place_unique {i k l : Nat} (hk : place next text k ≤ i) (hk' : i < place next text (k + 1))
    (hl : place next text l ≤ i) (hl' : i < place next text (l + 1)) : k = l := by
  have hkl : k < l + 1 := strictMono_place.lt_iff_lt.1 (Nat.lt_of_le_of_lt hk hl')
  have hlk : l < k + 1 := strictMono_place.lt_iff_lt.1 (Nat.lt_of_le_of_lt hl hk')
  omega

/-- From a place on, the copy of a text is the copy of the rest. -/
theorem drop_copy_place (k : Nat) : (copy next (.plain 0) text).drop (place next text k) =
    copy next (.plain 0) (text.drop (place next text k)) := by
  induction k with
  | zero => rfl
  | succ k ih =>
    rw [place, ← List.drop_drop, ih, copy_step, ← List.drop_drop]
    generalize text.drop (place next text k) = rest
    by_cases hlong : (next rest).width ≤ rest.length
    · exact List.drop_left' (by simp; omega)
    · have hend : rest.drop (next rest).width = [] := List.drop_eq_nil_of_le (by omega)
      rw [hend, copy_nil, List.append_nil]
      refine List.drop_eq_nil_of_le ?_
      rw [List.length_map, List.length_take]
      exact Nat.min_le_left _ _

/-- Between two places a text is copied as the search was told at the first. -/
theorem getElem?_copy_place {i k : Nat} (hle : place next text k ≤ i) (hlt : i < place next text (k + 1)) :
    (copy next (.plain 0) text)[i]? =
      text[i]?.map (next (text.drop (place next text k))).apply := by
  obtain ⟨j, rfl⟩ := Nat.exists_eq_add_of_le hle
  rw [place] at hlt
  rw [← List.getElem?_drop, ← List.getElem?_drop, drop_copy_place, copy_step]
  generalize text.drop (place next text k) = rest at hlt ⊢
  have hwidth : j < (next rest).width := by omega
  by_cases hlong : j < rest.length
  · rw [List.getElem?_append_left (by simp; omega), List.getElem?_map,
      List.getElem?_take_of_lt hwidth]
  · have hend : rest.drop (next rest).width = [] := List.drop_eq_nil_of_le (by omega)
    rw [hend, copy_nil, List.append_nil, List.getElem?_map, List.getElem?_take_of_lt hwidth]

/-! ## What a search makes blank -/

/-- Whether a search makes the character at an index blank. -/
def Blanked (next : List Char → Copy) (text : List Char) (i : Nat) : Prop :=
  ∃ k n, next (text.drop (place next text k)) = .blanked n ∧ place next text k ≤ i ∧
    i < place next text k + n

/-- The character at an index is made blank if this is what the search was told at the place before. -/
theorem blanked_iff {i k : Nat} (hle : place next text k ≤ i) (hlt : i < place next text (k + 1)) :
    Blanked next text i ↔ ∃ n, next (text.drop (place next text k)) = .blanked n ∧
      i < place next text k + n := by
  constructor
  · rintro ⟨l, n, hnext, hl, hn⟩
    have hl' : i < place next text (l + 1) := by
      rw [place, hnext, Copy.width]
      omega
    obtain rfl := place_unique hle hlt hl hl'
    exact ⟨n, hnext, hn⟩
  · rintro ⟨n, hnext, hn⟩
    exact ⟨k, n, hnext, hle, hn⟩

/-- A copy makes blank what the search tells it to, and changes nothing else. -/
theorem getElem?_copy (next : List Char → Copy) (text : List Char) (i : Nat) :
    Blanked next text i ∧ (copy next (.plain 0) text)[i]? = text[i]?.map blankChar ∨
      ¬ Blanked next text i ∧ (copy next (.plain 0) text)[i]? = text[i]? := by
  obtain ⟨k, hle, hlt⟩ : ∃ k, place next text k ≤ i ∧ i < place next text (k + 1) := exists_place i
  rw [blanked_iff hle hlt, getElem?_copy_place hle hlt]
  rw [place] at hlt
  cases hnext : next (text.drop (place next text k)) with
  | plain n => exact .inr ⟨by simp, by simp [Copy.apply]⟩
  | blanked n =>
    rw [hnext, Copy.width] at hlt
    cases n with
    | zero => exact .inr ⟨by simp; omega, by simp [Copy.apply]⟩
    | succ n => exact .inl ⟨⟨n + 1, rfl, by omega⟩, rfl⟩

/-- A search that is never told to make anything blank changes nothing. -/
theorem copy_eq_self (h : ∀ rest, rest <:+ text → ∀ n, next rest ≠ .blanked n) :
    copy next (.plain 0) text = text := by
  refine List.ext_getElem? fun i => ?_
  rcases getElem?_copy next text i with ⟨⟨k, n, hnext, -⟩, -⟩ | ⟨-, hsame⟩
  · exact absurd hnext (h _ (List.drop_suffix _ _) n)
  · exact hsame

/-! ## What is searched for -/

/-- A license comment that runs to the end of its line: two slashes, blanks, the word, and what follows. -/
theorem eq_of_lineLength? {n : Nat} (h : lineLength? text = some n) :
    ∃ gap rest, text = '/' :: '/' :: (gap ++ ("@license".toList ++ rest)) ∧
      (∀ c ∈ gap, Text.isBlank c = true) ∧
      n = 2 + gap.length + "@license".length + (rest.takeWhile (· != '\n')).length := by
  unfold lineLength? at h
  split at h
  · rename_i rest
    simp only at h
    split at h
    · rename_i after hafter
      rw [Text.after?_eq_some_iff] at hafter
      refine ⟨rest.takeWhile Text.isBlank, after, ?_, fun c => List.mem_takeWhile_imp, ?_⟩
      · rw [← hafter, List.takeWhile_append_dropWhile]
      · exact (Option.some.inj h).symm
    · cases h
  · cases h

theorem blanked_of_nextLine {n : Nat} (h : nextLine text = .blanked n) : lineLength? text = some n := by
  unfold nextLine at h
  split at h
  · rename_i length hlength
    rw [hlength]
    injection h with h
    rw [h]
  · cases h

/-- A block comment is made blank as a whole if it holds a license. -/
theorem blanked_of_nextBlock {n : Nat} (h : nextBlock text = .blanked n) :
    blockLength? text = some n ∧ isLicense (text.take n) = true := by
  unfold nextBlock at h
  split at h
  · rename_i length hlength
    split at h
    · rename_i hlicense
      injection h with h
      rw [← h]
      exact ⟨hlength, hlicense⟩
    · cases h
  · cases h

end AssetAudit.License
