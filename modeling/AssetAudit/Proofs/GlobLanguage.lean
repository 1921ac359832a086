import AssetAudit.Proofs.RuleSpelling

/-!
# The language of a pattern

A pattern is read as a text with places to fill in: `Fills` says by which characters each character of
it may be replaced. The texts that come out when every character is replaced by one of its fillings are
those that the relation `Matches` accepts (`matches_iff_exists_fillings`), so a pattern accepts exactly
these texts (`accepts_iff_filled`).
-/
namespace AssetAudit.Text.Glob

/-- What a character of a pattern may be replaced by: a star by any run without a line feed, a question
mark by one character other than a line feed, every other character by itself. -/
def Fills (c : Char) (piece : List Char) : Prop :=
  if c = '*' then '\n' ∉ piece
  else if c = '?' then ∃ d, d ≠ '\n' ∧ piece = [d]
  else piece = [c]

theorem fills_star_iff {piece : List Char} : Fills '*' piece ↔ '\n' ∉ piece := by
  rw [Fills, if_pos rfl]

theorem fills_mark_iff {piece : List Char} : Fills '?' piece ↔ ∃ d, d ≠ '\n' ∧ piece = [d] := by
  rw [Fills, if_neg (by decide), if_pos rfl]

theorem fills_literal_iff {c : Char} {piece : List Char} (hstar : c ≠ '*') (hmark : c ≠ '?') :
    Fills c piece ↔ piece = [c] := by
  rw [Fills, if_neg hstar, if_neg hmark]

theorem matches_nil_iff {text : List Char} : Matches [] text ↔ text = [] := by
  constructor
  · rintro ⟨⟩
    rfl
  · rintro rfl
    exact .done

/-- A match gives the first character of the pattern some of the text's first characters. -/
theorem matches_cons_iff {c : Char} {pattern text : List Char} :
    Matches (c :: pattern) text ↔
      ∃ piece rest, Fills c piece ∧ Matches pattern rest ∧ text = piece ++ rest := by
  constructor
  · intro h
    cases h with
    | @star _ run rest hrun hrest => exact ⟨run, rest, fills_star_iff.2 hrun, hrest, rfl⟩
    | @mark _ rest d hd hrest => exact ⟨[d], rest, fills_mark_iff.2 ⟨d, hd, rfl⟩, hrest, rfl⟩
    | @literal _ rest _ hstar hmark hrest =>
      exact ⟨[c], rest, (fills_literal_iff hstar hmark).2 rfl, hrest, rfl⟩
  · rintro ⟨piece, rest, hpiece, hrest, rfl⟩
    by_cases hstar : c = '*'
    · subst hstar
      exact .star (fills_star_iff.1 hpiece) hrest
    · by_cases hmark : c = '?'
      · subst hmark
        obtain ⟨d, hd, rfl⟩ := fills_mark_iff.1 hpiece
        exact .mark hd hrest
      · obtain rfl := (fills_literal_iff hstar hmark).1 hpiece
        exact .literal hstar hmark hrest

theorem matches_iff_exists_fillings {pattern : List Char} : ∀ {text : List Char},
    Matches pattern text ↔ ∃ pieces, List.Forall₂ Fills pattern pieces ∧ pieces.flatten = text := by
  induction pattern with
  | nil =>
    intro text
    rw [matches_nil_iff]
    simp [eq_comm]
  | cons c pattern ih =>
    intro text
    rw [matches_cons_iff]
    constructor
    · rintro ⟨piece, rest, hpiece, hrest, rfl⟩
      obtain ⟨pieces, hpieces, rfl⟩ := ih.1 hrest
      exact ⟨piece :: pieces, .cons hpiece hpieces, rfl⟩
    · rintro ⟨_, hpieces, rfl⟩
      cases hpieces with
      | @cons _ piece _ pieces hpiece hrest =>
        exact ⟨piece, pieces.flatten, hpiece, ih.2 ⟨pieces, hrest, rfl⟩, rfl⟩

/-- A pattern accepts the texts that replacing each of its characters gives, and no others. -/
theorem accepts_iff_filled (pattern text : String) :
    accepts pattern text = true ↔
      ∃ pieces, List.Forall₂ Fills pattern.toList pieces ∧ pieces.flatten = text.toList := by
  rw [accepts_iff_matches, matches_iff_exists_fillings]

example : accepts "file?.js" "file1.js" = true ∧ accepts "file?.js" "file12.js" = false ∧
    accepts "file?.js" "file1xjs" = false := by
  decide +kernel

end AssetAudit.Text.Glob
