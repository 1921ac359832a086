import AssetAudit.Proofs.PlaceOrder
import AssetAudit.Proofs.QuickCheck

/-!
# Texts of the same layout

Two texts have the same layout if they agree but for spaces that stand in the place of characters other
than line feeds and carriage returns (`SameLayout`). A search keeps the layout (`sameLayout_copy`), so
cleaning a text does, which is two searches; and the places of the characters depend on the layout alone
(`SameLayout.positionAt_eq`).

Main statement: `cleaning_keeps_layout`.
-/
namespace AssetAudit.License

/-- Whether one text has spaces in the place of some characters of another, but not of its line feeds and
carriage returns, and agrees with it otherwise. -/
def SameLayout (old new : List Char) : Prop :=
  ∀ i : Nat, new[i]? = old[i]? ∨ ∃ c, old[i]? = some c ∧ c ≠ '\n' ∧ c ≠ '\r' ∧ new[i]? = some ' '

theorem blankChar_cases (c : Char) : blankChar c = c ∨ c ≠ '\n' ∧ c ≠ '\r' ∧ blankChar c = ' ' := by
  unfold blankChar
  split
  · exact .inl rfl
  · rename_i hbreak
    simp only [Bool.or_eq_true, beq_iff_eq, not_or] at hbreak
    exact .inr ⟨hbreak.1, hbreak.2, rfl⟩

theorem sameLayout_copy (next : List Char → Copy) (text : List Char) :
    SameLayout text (copy next (.plain 0) text) := by
  intro i
  rcases getElem?_copy next text i with ⟨-, hblank⟩ | ⟨-, hsame⟩
  · rw [hblank]
    cases text[i]? with
    | none => exact .inl rfl
    | some c =>
      rcases blankChar_cases c with hkept | ⟨hfeed, hreturn, hspace⟩
      · exact .inl (congrArg some hkept)
      · exact .inr ⟨c, rfl, hfeed, hreturn, congrArg some hspace⟩
  · exact .inl hsame

namespace SameLayout

variable {old mid new : List Char}

theorem trans (h : SameLayout old mid) (h' : SameLayout mid new) : SameLayout old new := by
  intro i
  rcases h' i with hsame | ⟨c, hmid, hfeed, hreturn, hspace⟩
  · rw [hsame]
    exact h i
  · rcases h i with hold | ⟨d, hold, hfeed', hreturn', -⟩
    · exact .inr ⟨c, hold ▸ hmid, hfeed, hreturn, hspace⟩
    · exact .inr ⟨d, hold, hfeed', hreturn', hspace⟩

theorem length_eq (h : SameLayout old new) : new.length = old.length := by
  have hnone : ∀ i : Nat, new[i]? = none ↔ old[i]? = none := by
    intro i
    rcases h i with hsame | ⟨c, hold, -, -, hspace⟩
    · rw [hsame]
    · simp [hold, hspace]
  simp only [List.getElem?_eq_none_iff] at hnone
  exact Nat.le_antisymm ((hnone _).2 (Nat.le_refl _)) ((hnone _).1 (Nat.le_refl _))

/-- Characters that stand in the same places of two texts lead to the same place. -/
theorem after_take (h : SameLayout old new) (p : Position) (n : Nat) :
    p.after (new.take n) = p.after (old.take n) := by
  induction n with
  | zero => rfl
  | succ n ih =>
    rw [List.take_add_one, List.take_add_one, Position.after_append, Position.after_append, ih]
    rcases h n with hsame | ⟨c, hold, hfeed, -, hspace⟩
    · rw [hsame]
    · rw [hold, hspace]
      simp [Position.after, Position.advance, hfeed]

/-- The place of a character depends on the layout alone, whatever bytes the characters before it take. -/
theorem positionAt_eq (h : SameLayout old new) (n : Nat) :
    Text.positionAt new (Text.byteLength (new.take n)) =
      Text.positionAt old (Text.byteLength (old.take n)) := by
  have hplace : ∀ text : List Char, Text.positionAt text (Text.byteLength (text.take n)) =
      Position.origin.after (text.take n) := by
    intro text
    have hcut := Text.positionAt_append (text.take n) (text.drop n)
    rwa [List.take_append_drop] at hcut
  rw [hplace, hplace, h.after_take]

end SameLayout

/-- Cleaning keeps the layout of a text. The cleaned text has as many characters; each is the one it was,
or a space in the place of a character other than a line feed and a carriage return; and the character at
an index stands at the line and column where the character at this index stood. -/
theorem cleaning_keeps_layout (content : String) :
    (clean content).length = content.length ∧
      (∀ (i : Nat) (c : Char), content.toList[i]? = some c → (clean content).toList[i]? = some c ∨
        c ≠ '\n' ∧ c ≠ '\r' ∧ (clean content).toList[i]? = some ' ') ∧
      ∀ i, Text.positionAt (clean content).toList
          (Text.byteLength ((clean content).toList.take i)) =
        Text.positionAt content.toList (Text.byteLength (content.toList.take i)) := by
  have hlayout : SameLayout content.toList (clean content).toList := by
    rw [clean_eq, String.toList_ofList]
    exact (sameLayout_copy nextBlock _).trans (sameLayout_copy nextLine _)
  refine ⟨?_, fun i c hc => ?_, hlayout.positionAt_eq⟩
  · rw [← String.length_toList, ← String.length_toList]
    exact hlayout.length_eq
  · rcases hlayout i with hsame | ⟨d, hd, hfeed, hreturn, hspace⟩
    · exact .inl (hsame.trans hc)
    · rw [hc, Option.some.injEq] at hd
      subst hd
      exact .inr ⟨hfeed, hreturn, hspace⟩

example : clean "/*! é\r\n€ */ x // @license" = "     \r\n     x            " := by decide +kernel

end AssetAudit.License
