import AssetAudit.Proofs.BlankText
import AssetAudit.Proofs.PageName
import Mathlib.Tactic.ByContra

/-!
# Lower case of ASCII texts

What becomes an ASCII character in lower case is ASCII itself, except for the Kelvin sign
(`ascii_of_lowerChar`). So a text without a `k` is the lower case of another character by character
(`lowercaseFrom_eq_iff`), lower case taken twice is lower case (`lowercase_of_lowercase`), and a word
inside a text in lower case is there with the case of ASCII letters alone (`infix_map_toLower`).
-/
namespace AssetAudit.Text

/-- Outside ASCII only the Kelvin sign has a lower-case form in ASCII. -/
theorem ascii_caseRuns : ∀ run ∈ caseRuns,
    (run.first : Int) + run.shift = 107 ∧ run.last = run.first ∨ 127 < (run.first : Int) + run.shift := by
  decide +kernel

theorem toLower_ne_upper : ∀ n < 128,
    ¬ (64 < (Char.ofNat n).toLower.toNat ∧ (Char.ofNat n).toLower.toNat < 91) := by
  decide

theorem toLower_of_not_upper : ∀ n < 128, ¬ (64 < n ∧ n < 91) → (Char.ofNat n).toLower = Char.ofNat n := by
  decide

theorem ofNat_eq_of_pos {n : Nat} {c : Char} (hc : 0 < c.toNat) (h : Char.ofNat n = c) :
    n = c.toNat := by
  by_cases hvalid : n.isValidChar
  · rw [Char.ofNat, dif_pos hvalid] at h
    exact congrArg Char.toNat h
  · rw [Char.ofNat, dif_neg hvalid] at h
    rw [← h] at hc
    cases hc

/-- What becomes an ASCII character other than `k` is ASCII itself. -/
theorem ascii_of_lowerChar {c : Char} (hpos : 0 < (lowerChar c).toNat)
    (hascii : (lowerChar c).toNat < 128) (hk : lowerChar c ≠ 'k') : c.toNat < 128 := by
  by_contra hlarge
  cases hrun : caseRuns.find? (·.covers c) with
  | none =>
    have hlower : lowerChar c = c := by rw [lowerChar, if_neg hlarge, hrun]
    rw [hlower] at hascii
    exact hlarge hascii
  | some run =>
    have hlower : lowerChar c = Char.ofNat (c.toNat + run.shift).toNat := by
      rw [lowerChar, if_neg hlarge, hrun]
    have hcovers := List.find?_some hrun
    simp only [CaseRun.covers, Bool.and_eq_true, decide_eq_true_eq] at hcovers
    have hnum := ofNat_eq_of_pos hpos hlower.symm
    rcases ascii_caseRuns run (List.mem_of_find?_eq_some hrun) with ⟨hfirst, hlast⟩ | hfar
    · have hkelvin : (lowerChar c).toNat = 107 := by omega
      exact hk (by rw [← Char.ofNat_toNat (lowerChar c), hkelvin])
    · omega

/-- No capital letter of ASCII is a lower-case form. -/
theorem lowerChar_ne_upper {c d : Char} (h : lowerChar c = d) : ¬ (64 < d.toNat ∧ d.toNat < 91) := by
  rintro ⟨hlow, hhigh⟩
  have hk : d ≠ 'k' := by
    rintro rfl
    exact absurd hhigh (by decide)
  subst h
  have hc := ascii_of_lowerChar (by omega) (by omega) hk
  have hnone := toLower_ne_upper c.toNat hc
  rw [lowerChar, if_pos hc] at hlow hhigh
  rw [Char.ofNat_toNat] at hnone
  exact hnone ⟨hlow, hhigh⟩

theorem mem_lowercaseFrom : ∀ {before text : List Char} {d : Char}, d ∈ lowercaseFrom before text →
    (∃ c ∈ text, lowerChar c = d) ∨ d ∈ ['ς', 'σ', 'i', Char.ofNat 0x307]
  | _, [], d, h => by cases h
  | before, c :: rest, d, h => by
    rw [lowercaseFrom] at h
    rcases List.mem_append.1 h with h | h
    · split at h
      · split at h
        · exact .inr (by rw [List.mem_singleton.1 h]; decide)
        · exact .inr (by rw [List.mem_singleton.1 h]; decide)
      · split at h
        · exact .inr (List.mem_cons_of_mem _ (List.mem_cons_of_mem _ h))
        · exact .inl ⟨c, List.mem_cons_self, (List.mem_singleton.1 h).symm⟩
    · rcases mem_lowercaseFrom h with ⟨other, hother, hlower⟩ | h
      · exact .inl ⟨other, List.mem_cons_of_mem _ hother, hlower⟩
      · exact .inr h

/-- Lower case taken twice shows in no ASCII text without a `k`. -/
theorem lowercase_of_lowercase {text : String} {lower : List Char}
    (hascii : ∀ d ∈ lower, 0 < d.toNat ∧ d.toNat < 128 ∧ d ≠ 'k')
    (h : lowercaseFrom [] (lowercase text).toList = lower) : (lowercase text).toList = lower := by
  have hchars := lowercaseFrom_ascii [] (lowercase text).toList fun d hd => (hascii d (h ▸ hd)).2.1
  rw [h] at hchars
  refine (hchars.trans ?_).symm
  refine (List.map_congr_left fun c hc => ?_).trans (List.map_id _)
  obtain ⟨hpos, hsmall, hk⟩ := hascii (lowerChar c) (hchars ▸ List.mem_map_of_mem hc)
  have hc128 := ascii_of_lowerChar hpos hsmall hk
  have hupper : ¬ (64 < c.toNat ∧ c.toNat < 91) := by
    rw [lowercase, String.toList_ofList] at hc
    rcases mem_lowercaseFrom hc with ⟨other, -, hother⟩ | hspecial
    · exact lowerChar_ne_upper hother
    · have hnone : ∀ d ∈ ['ς', 'σ', 'i', Char.ofNat 0x307], ¬ (64 < d.toNat ∧ d.toNat < 91) := by
        decide
      exact hnone c hspecial
  have hsame := toLower_of_not_upper c.toNat hc128 hupper
  rw [Char.ofNat_toNat] at hsame
  rw [lowerChar, if_pos hc128, hsame, id]

theorem lowercaseFrom_eq_map : ∀ (before text : List Char), (∀ c ∈ text, c.toNat < 128) →
    lowercaseFrom before text = text.map Char.toLower
  | _, [], _ => rfl
  | before, c :: rest, h => by
    have hc : c.toNat < 128 := h c List.mem_cons_self
    have hne : ∀ d : Char, 128 ≤ d.toNat → (c == d) = false := by
      intro d hd
      rw [beq_eq_false_iff_ne]
      rintro rfl
      omega
    rw [lowercaseFrom, hne 'Σ' (by decide), hne 'İ' (by decide),
      lowercaseFrom_eq_map (c :: before) rest fun d hd => h d (List.mem_cons_of_mem _ hd), lowerChar,
      if_pos hc]
    rfl

theorem toLower_of_not_ascii {c : Char} (h : 128 ≤ c.toNat) : c.toLower = c := by
  have hupper : ¬ (c.val ≥ 'A'.val ∧ c.val ≤ 'Z'.val) := by
    rintro ⟨-, hle⟩
    rw [UInt32.le_iff_toNat_le] at hle
    have hlast : c.toNat ≤ 90 := hle
    omega
  exact dif_neg hupper

/-- An ASCII text without a `k` is the lower case of a text character by character. -/
theorem lowercaseFrom_eq_iff {text lower : List Char}
    (hlower : ∀ d ∈ lower, 0 < d.toNat ∧ d.toNat < 128 ∧ d ≠ 'k') :
    lowercaseFrom [] text = lower ↔ text.map Char.toLower = lower := by
  constructor
  · rintro rfl
    have hchars := lowercaseFrom_ascii [] text fun d hd => (hlower d hd).2.1
    rw [hchars]
    refine List.map_congr_left fun c hc => ?_
    obtain ⟨hpos, hsmall, hk⟩ := hlower (lowerChar c) (hchars ▸ List.mem_map_of_mem hc)
    rw [lowerChar, if_pos (ascii_of_lowerChar hpos hsmall hk)]
  · rintro rfl
    refine lowercaseFrom_eq_map [] text fun c hc => ?_
    by_contra hlarge
    have hsmall := (hlower _ (List.mem_map_of_mem hc)).2.1
    rw [toLower_of_not_ascii (by omega)] at hsmall
    exact hlarge hsmall

/-- The letters of a word that lower case can only make of ASCII letters. -/
def PlainWord (word : List Char) : Prop := ∀ d ∈ word, 0 < d.toNat ∧ d.toNat < 128 ∧ d ≠ 'k'

/-- A word at the front of a text in lower case is there with the case of ASCII letters alone. The dotted
capital I leaves its dot behind the i, so that only a word that ends with an i could take this letter
from it. -/
theorem prefix_map_toLower : ∀ {before text word : List Char}, PlainWord word → word.getLast? ≠ some 'i' →
    word <+: lowercaseFrom before text → word <+: text.map Char.toLower
  | _, _, [], _, _, _ => List.nil_prefix
  | _, [], d :: word, _, _, h => by simp [lowercaseFrom] at h
  | before, c :: rest, d :: word, hplain, hlast, h => by
    obtain ⟨hd, hword⟩ := List.forall_mem_cons.1 hplain
    obtain ⟨lower, heq, hlower⟩ := exists_lowercaseFrom_cons before c rest
    rw [heq] at h
    rcases hlower with rfl | ⟨other, rfl, hlarge⟩ | rfl
    · obtain ⟨rfl, htail⟩ := List.cons_prefix_cons.1 h
      have hc := ascii_of_lowerChar hd.1 hd.2.1 hd.2.2
      have hrest : word.getLast? ≠ some 'i' := by
        cases word with
        | nil => simp
        | cons e word => simpa using hlast
      rw [List.map_cons, lowerChar, if_pos hc]
      exact List.cons_prefix_cons.2 ⟨rfl, prefix_map_toLower hword hrest htail⟩
    · obtain ⟨rfl, -⟩ := List.cons_prefix_cons.1 h
      omega
    · obtain ⟨rfl, htail⟩ := List.cons_prefix_cons.1 h
      cases word with
      | nil => exact absurd rfl hlast
      | cons e word =>
        obtain ⟨rfl, -⟩ := List.cons_prefix_cons.1 htail
        exact absurd (hword _ List.mem_cons_self).2.1 (by decide)

/-- A word inside a text in lower case is there with the case of ASCII letters alone. -/
theorem infix_map_toLower {word : List Char} (hplain : PlainWord word) (hne : word ≠ [])
    (hlast : word.getLast? ≠ some 'i') : ∀ {before text : List Char},
    word <:+: lowercaseFrom before text → word <:+: text.map Char.toLower
  | _, [], h => by simpa [lowercaseFrom] using h
  | before, c :: rest, h => by
    obtain ⟨lower, heq, hlower⟩ := exists_lowercaseFrom_cons before c rest
    obtain ⟨front, back, hcut⟩ := h
    have hsuffix : word ++ back <:+ lower ++ lowercaseFrom (c :: before) rest :=
      ⟨front, by rw [← heq, ← hcut, List.append_assoc]⟩
    rcases suffix_append_cases hsuffix with hrest | ⟨part, hpart, hsome, hword⟩
    · have hinner : word <:+: lowercaseFrom (c :: before) rest :=
        (List.prefix_append word back).isInfix.trans hrest.isInfix
      exact List.infix_cons (infix_map_toLower hplain hne hlast hinner)
    · by_cases hwhole : part = lower
      · have hprefix : word <+: lowercaseFrom before (c :: rest) := ⟨back, by rw [heq, hword, hwhole]⟩
        exact (prefix_map_toLower hplain hlast hprefix).isInfix
      · -- only the dot of a dotted i can start inside what a character became, and no word starts with it
        have hdot : part = [Char.ofNat 0x307] := by
          rcases hlower with rfl | ⟨other, rfl, -⟩ | rfl
          · exact absurd (List.suffix_nil.1 ((List.suffix_cons_iff.1 hpart).resolve_left hwhole)) hsome
          · exact absurd (List.suffix_nil.1 ((List.suffix_cons_iff.1 hpart).resolve_left hwhole)) hsome
          · rcases List.suffix_cons_iff.1 ((List.suffix_cons_iff.1 hpart).resolve_left hwhole) with h | h
            · exact h
            · exact absurd (List.suffix_nil.1 h) hsome
        obtain ⟨d, word', rfl⟩ := List.exists_cons_of_ne_nil hne
        rw [hdot, List.cons_append, List.singleton_append, List.cons.injEq] at hword
        have hd := (hplain d List.mem_cons_self).2.1
        rw [hword.1] at hd
        exact absurd hd (by decide)

end AssetAudit.Text
