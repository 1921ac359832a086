import AssetAudit.Proofs.LowerCase
import AssetAudit.Proofs.ShelteredText
import AssetAudit.Style.Sheet

/-!
# Names of properties

A name in a style sheet holds spaces, and characters behind which an expression of a script can hold a
colon, only behind a backslash that starts no escape of a word (`isGuarded_property`). So a declaration, a
name, a colon and a value, has no space before which there is an expression (`isSheltered_of_declared`).
-/
namespace AssetAudit.Style

open Script (isOpening isSheltered openings)

/-! ## Guarded texts -/

/-- Whether neither a space nor an opening character stands before the first backslash that starts no escape of
a word. -/
def isGuarded : List Char → Bool
  | [] => true
  | c :: rest =>
    c == '\\' && rest.head? != some 'u' || !isOpening c && c != ' ' && isGuarded rest

theorem isSheltered_backslash {rest : List Char} (h : rest.head? ≠ some 'u') :
    isSheltered ('\\' :: rest) = false := by
  have hu : (rest.head? == some 'u') = false := beq_eq_false_iff_ne.2 h
  rw [isSheltered, hu]
  rfl

theorem isGuarded_cases {c : Char} {rest : List Char} (h : isGuarded (c :: rest) = true) :
    c = '\\' ∧ rest.head? ≠ some 'u' ∨ isOpening c = false ∧ isGuarded rest = true := by
  rw [isGuarded, Bool.or_eq_true, Bool.and_eq_true, Bool.and_eq_true, Bool.and_eq_true] at h
  rcases h with ⟨hbackslash, hu⟩ | ⟨⟨hopening, -⟩, hrest⟩
  · exact .inl ⟨beq_iff_eq.1 hbackslash, bne_iff_ne.1 hu⟩
  · exact .inr ⟨(Bool.not_eq_true' _).mp hopening, hrest⟩

theorem isSheltered_cons_eq_false {c : Char} {rest : List Char} (hopening : isOpening c = false)
    (h : isSheltered rest = false) : isSheltered (c :: rest) = false := by
  rw [isSheltered, hopening, h, Bool.and_false]
  rfl

/-- A colon behind a guarded text is not sheltered. -/
theorem isSheltered_guarded {front : List Char} (h : isGuarded front = true) (tail : List Char) :
    isSheltered (front ++ ':' :: tail) = false := by
  induction front with
  | nil => rfl
  | cons c rest ih =>
    rcases isGuarded_cases h with ⟨rfl, hu⟩ | ⟨hopening, hrest⟩
    · refine isSheltered_backslash ?_
      cases rest with
      | nil => simp
      | cons d rest => exact hu
    · exact isSheltered_cons_eq_false hopening (ih hrest)

/-- What stands before a space of a guarded text is not sheltered. -/
theorem isSheltered_of_space {front back : List Char} (h : isGuarded (front ++ ' ' :: back) = true) :
    isSheltered front = false := by
  induction front with
  | nil => cases h
  | cons c rest ih =>
    rcases isGuarded_cases h with ⟨rfl, hu⟩ | ⟨hopening, hrest⟩
    · refine isSheltered_backslash ?_
      cases rest with
      | nil => decide
      | cons d rest => exact hu
    · exact isSheltered_cons_eq_false hopening (ih hrest)

/-- What stands before a space of a declaration is not sheltered. -/
theorem isSheltered_of_declared {property tail front back : List Char} (h : isGuarded property = true)
    (hsplit : property ++ ':' :: tail = front ++ ' ' :: back) : isSheltered front = false := by
  rcases List.append_eq_append_iff.1 hsplit with ⟨more, rfl, htail⟩ | ⟨more, rfl, hback⟩
  · cases more with
    | nil => simp at htail
    | cons c more =>
      obtain ⟨rfl, -⟩ := List.cons.inj htail
      exact isSheltered_guarded h more
  · cases more with
    | nil => simp at hback
    | cons c more =>
      obtain ⟨rfl, -⟩ := List.cons.inj hback
      exact isSheltered_of_space h

/-! ## Names in lower case -/

theorem isGuarded_cons {c : Char} {rest : List Char} (hopening : isOpening c = false) (hspace : c ≠ ' ')
    (h : isGuarded rest = true) : isGuarded (c :: rest) = true := by
  rw [isGuarded, hopening, h, bne_iff_ne.2 hspace]
  exact Bool.or_true _

theorem ascii_openings : ∀ d ∈ ' ' :: openings, 0 < d.toNat ∧ d.toNat < 128 ∧ d ≠ 'k' := by decide

theorem isOpening_eq_false {c : Char} (h : c ∉ ' ' :: openings) : isOpening c = false ∧ c ≠ ' ' := by
  rw [List.mem_cons, not_or] at h
  exact ⟨Bool.eq_false_iff.2 fun hopening => h.2 (List.contains_iff_mem.1 hopening), h.1⟩

/-- Of the characters of a name in lower case none is a space or an opening character. -/
theorem lowerChar_not_mem {c : Char} (h : isNameChar c = true) : Text.lowerChar c ∉ ' ' :: openings := by
  have hnone : ∀ n < 128, isNameChar (Char.ofNat n) = true →
      Text.lowerChar (Char.ofNat n) ∉ ' ' :: openings := by decide
  intro hmem
  obtain ⟨hpos, hsmall, hk⟩ := ascii_openings _ hmem
  have hc := Text.ascii_of_lowerChar hpos hsmall hk
  have hnot := hnone c.toNat hc
  rw [Char.ofNat_toNat] at hnot
  exact hnot h hmem

theorem not_hexDigit_of_lowerChar {c : Char} (h : Text.lowerChar c = 'u') : isHexDigit c = false := by
  have hnone : ∀ n < 128, Text.lowerChar (Char.ofNat n) = 'u' → isHexDigit (Char.ofNat n) = false := by
    decide
  have hc : c.toNat < 128 := by
    refine Text.ascii_of_lowerChar ?_ ?_ ?_ <;> rw [h] <;> decide
  have hnot := hnone c.toNat hc
  rw [Char.ofNat_toNat] at hnot
  exact hnot h

/-- A character of a name in lower case, whatever stands beside it. -/
theorem isGuarded_lower {c : Char} (hc : isNameChar c = true) (before rest : List Char)
    (h : isGuarded (Text.lowercaseFrom (c :: before) rest) = true) :
    isGuarded (Text.lowercaseFrom before (c :: rest)) = true := by
  obtain ⟨lower, heq, hlower⟩ := Text.exists_lowercaseFrom_cons before c rest
  rw [heq]
  rcases hlower with rfl | ⟨d, rfl, hd⟩ | rfl
  · obtain ⟨hopening, hspace⟩ := isOpening_eq_false (lowerChar_not_mem hc)
    exact isGuarded_cons hopening hspace h
  · have hnot : d ∉ ' ' :: openings := fun hmem => by
      have := (ascii_openings d hmem).2.1
      omega
    obtain ⟨hopening, hspace⟩ := isOpening_eq_false hnot
    exact isGuarded_cons hopening hspace h
  · exact isGuarded_cons (by decide) (by decide) (isGuarded_cons (by decide) (by decide) h)

theorem isGuarded_escape {e : Char} {before rest : List Char}
    (h : Text.lowerChar e = 'u' → isGuarded (Text.lowercaseFrom (e :: before) rest) = true) :
    isGuarded ('\\' :: Text.lowercaseFrom before (e :: rest)) = true := by
  obtain ⟨lower, heq, hlower⟩ := Text.exists_lowercaseFrom_cons before e rest
  rw [heq]
  have hother : ∀ {d : Char} {more : List Char}, d ≠ 'u' → isGuarded ('\\' :: d :: more) = true := by
    intro d more hd
    have hu : (some d != some 'u') = true := by simpa using hd
    rw [isGuarded, List.head?_cons, hu]
    rfl
  rcases hlower with rfl | ⟨d, rfl, hd⟩ | rfl
  · by_cases hu : Text.lowerChar e = 'u'
    · rw [hu]
      exact isGuarded_cons (by decide) (by decide) (isGuarded_cons (by decide) (by decide) (h hu))
    · exact hother hu
  · refine hother ?_
    rintro rfl
    exact absurd hd (by decide)
  · exact hother (by decide)

/-- The characters and escapes that continue a name, by induction on the length of the text: an escape that looks
like one of a word is a single character. -/
theorem isGuarded_nameRest (text before : List Char) :
    isGuarded (Text.lowercaseFrom before (text.take (nameRest 0 text))) = true := by
  induction hlength : text.length using Nat.strong_induction_on generalizing text before with
  | _ n ih =>
    cases text with
    | nil => rfl
    | cons c rest =>
      rw [nameRest]
      split
      · rename_i hbackslash
        rw [beq_iff_eq] at hbackslash
        subst hbackslash
        simp only
        split
        · rfl
        · rename_i hescape
          cases rest with
          | nil => exact absurd rfl hescape
          | cons e rest =>
            obtain ⟨m, hm⟩ := Nat.exists_eq_succ_of_ne_zero (fun h => hescape (beq_iff_eq.2 h))
            rw [hm, nameRest]
            refine isGuarded_escape fun hu => ?_
            have hone : m = 0 := by
              rw [escapeLength, not_hexDigit_of_lowerChar hu] at hm
              split at hm
              · rename_i hfalse
                cases hfalse
              · split at hm
                · cases hm
                · exact (Nat.succ.inj hm).symm
            rw [hone]
            exact ih rest.length (by rw [← hlength, List.length_cons, List.length_cons]; omega) rest _ rfl
      · split
        · rename_i hc
          rw [List.take_succ_cons]
          exact isGuarded_lower hc _ _ (ih rest.length (by rw [← hlength]; exact Nat.lt_succ_self _) rest _ rfl)
        · rfl

/-- The name of a declaration is guarded in lower case. -/
theorem isGuarded_name (text before : List Char) :
    isGuarded (Text.lowercaseFrom before (text.take (nameLength text))) = true := by
  unfold nameLength
  split
  · exact isGuarded_cons (by decide) (by decide) (isGuarded_cons (by decide) (by decide) (isGuarded_nameRest _ _))
  · split
    · exact isGuarded_cons (by decide) (by decide) (isGuarded_nameRest _ _)
    · rfl
  · split
    · exact isGuarded_nameRest _ _
    · rfl
  · rfl

/-- The property of a declaration is guarded. -/
theorem isGuarded_property {text : List Char} {c : Cursor} (hc : Cursor.At text c) (v : Value) :
    isGuarded (declarationOf text ⟨c.offset, (c.skip (nameLength c.rest)).offset⟩ v).property.toList = true := by
  rw [declarationOf, Text.lowercase, String.toList_ofList, String.toList_ofList,
    (Script.leads_skip c _).slice_eq hc]
  exact isGuarded_name _ _

end AssetAudit.Style
