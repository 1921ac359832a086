import AssetAudit.Proofs.PathSpelling
import AssetAudit.Survey

/-!
# Names of pages

Whether an asset is a page is asked in two ways: by the end of its name in lower case, and by the
extension of its path. Where the end of a text in lower case is ASCII, it is the end of the text
character by character (`exists_of_suffix_lowercase`), and only a dot becomes a dot (`lowerChar_dot`).
So a name that ends as one of a page has the extension of a page or none
(`extension_of_isPageName`), and no survey finds a script or a style sheet under it
(`isPage_eq_false`).
-/
namespace AssetAudit

/-! ## Lower case -/

namespace Text

/-- No character outside ASCII has a lower-case form before the letters. -/
theorem shift_caseRuns : ∀ run ∈ caseRuns, 46 < (run.first : Int) + run.shift := by decide +kernel

theorem toLower_dot : ∀ n < 128, (Char.ofNat n).toLower = '.' → n = 46 := by decide

theorem ofNat_eq_dot {n : Nat} (h : Char.ofNat n = '.') : n = 46 := by
  by_cases hvalid : n.isValidChar
  · rw [Char.ofNat, dif_pos hvalid] at h
    exact congrArg Char.toNat h
  · rw [Char.ofNat, dif_neg hvalid] at h
    cases congrArg Char.toNat h

theorem lowerChar_dot {c : Char} (h : lowerChar c = '.') : c = '.' := by
  have hnum : c.toNat = 46 → c = '.' := fun hn => by rw [← Char.ofNat_toNat c, hn]
  unfold lowerChar at h
  split at h
  · rename_i hc
    exact hnum (toLower_dot c.toNat hc (by rwa [Char.ofNat_toNat]))
  · split at h
    · rename_i run hrun
      have hcovers := List.find?_some hrun
      have hshift := shift_caseRuns run (List.mem_of_find?_eq_some hrun)
      have hdot := ofNat_eq_dot h
      simp only [CaseRun.covers, Bool.and_eq_true, decide_eq_true_eq] at hcovers
      omega
    · exact h

/-- A character becomes its own lower-case form, another one outside ASCII, or an i with a dot above. -/
theorem exists_lowercaseFrom_cons (before : List Char) (c : Char) (rest : List Char) :
    ∃ lower, lowercaseFrom before (c :: rest) = lower ++ lowercaseFrom (c :: before) rest ∧
      (lower = [lowerChar c] ∨ (∃ d, lower = [d] ∧ 128 ≤ d.toNat) ∨ lower = ['i', Char.ofNat 0x307]) := by
  refine ⟨_, rfl, ?_⟩
  split
  · split
    · exact .inr (.inl ⟨'ς', rfl, by decide⟩)
    · exact .inr (.inl ⟨'σ', rfl, by decide⟩)
  · split
    · exact .inr (.inr rfl)
    · exact .inl rfl

/-- A character that becomes more than its own lower-case form ends outside ASCII. -/
theorem lowercaseFrom_cons (before : List Char) (c : Char) (rest : List Char) :
    ∃ lower, lowercaseFrom before (c :: rest) = lower ++ lowercaseFrom (c :: before) rest ∧
      (lower = [lowerChar c] ∨ ∃ d, lower.getLast? = some d ∧ 128 ≤ d.toNat) := by
  obtain ⟨lower, heq, rfl | ⟨d, rfl, hlarge⟩ | rfl⟩ := exists_lowercaseFrom_cons before c rest
  · exact ⟨_, heq, .inl rfl⟩
  · exact ⟨_, heq, .inr ⟨d, rfl, hlarge⟩⟩
  · exact ⟨_, heq, .inr ⟨Char.ofNat 0x307, rfl, by decide⟩⟩

theorem lowercaseFrom_ascii : ∀ (before text : List Char),
    (∀ d ∈ lowercaseFrom before text, d.toNat < 128) → lowercaseFrom before text = text.map lowerChar
  | _, [], _ => rfl
  | before, c :: rest, h => by
    obtain ⟨lower, heq, hlower⟩ := lowercaseFrom_cons before c rest
    rw [heq] at h ⊢
    rcases hlower with rfl | ⟨d, hd, hlarge⟩
    · rw [lowercaseFrom_ascii (c :: before) rest fun d hd => h d (List.mem_append_right _ hd)]
      rfl
    · have := h d (List.mem_append_left _ (List.mem_of_getLast? hd))
      omega

/-- An ASCII end in lower case is the end of the text, character by character. -/
theorem exists_of_suffix_lowercase {ending : List Char} (hascii : ∀ d ∈ ending, d.toNat < 128) :
    ∀ (before text : List Char), ending <:+ lowercaseFrom before text →
      ∃ front back, text = front ++ back ∧ back.map lowerChar = ending
  | _, [], h => ⟨[], [], rfl, (List.suffix_nil.1 h).symm⟩
  | before, c :: rest, h => by
    obtain ⟨lower, heq, hlower⟩ := lowercaseFrom_cons before c rest
    rw [heq] at h
    by_cases hrest : ending <:+ lowercaseFrom (c :: before) rest
    · obtain ⟨front, back, hfront, hback⟩ :=
        exists_of_suffix_lowercase hascii (c :: before) rest hrest
      exact ⟨c :: front, back, by rw [hfront]; rfl, hback⟩
    · -- the ending starts inside what the character became
      obtain ⟨part, hpart⟩ := (List.suffix_or_suffix_of_suffix h
        (List.suffix_append lower _)).resolve_left hrest
      obtain ⟨skipped, hskipped⟩ := h
      rw [← hpart, ← List.append_assoc] at hskipped
      have hsplit : skipped ++ part = lower := List.append_cancel_right hskipped
      have hne : part ≠ [] := by
        rintro rfl
        exact hrest ⟨[], hpart ▸ rfl⟩
      rcases hlower with rfl | ⟨d, hd, hlarge⟩
      · have hall := lowercaseFrom_ascii (c :: before) rest fun d hd =>
          hascii d (hpart ▸ List.mem_append_right _ hd)
        rcases List.append_eq_singleton_iff.1 hsplit with ⟨-, rfl⟩ | ⟨-, rfl⟩
        · exact ⟨[], c :: rest, rfl, by rw [← hpart, hall]; rfl⟩
        · exact absurd rfl hne
      · rw [← hsplit, List.getLast?_append] at hd
        cases hlast : part.getLast? with
        | none => exact absurd (List.getLast?_eq_none_iff.1 hlast) hne
        | some last =>
          rw [hlast, Option.some_or, Option.some.injEq] at hd
          rw [← hd] at hlarge
          have := hascii last (hpart ▸ List.mem_append_left _ (List.mem_of_getLast? hlast))
          omega

theorem lowercaseFrom_of_ascii : ∀ (before text : List Char),
    (∀ c ∈ text, (lowerChar c).toNat < 128) → lowercaseFrom before text = text.map lowerChar
  | _, [], _ => rfl
  | before, c :: rest, h => by
    have hc := h c List.mem_cons_self
    have hsigma : (c == 'Σ') = false := by
      rw [beq_eq_false_iff_ne]
      rintro rfl
      exact absurd hc (by decide +kernel)
    have hdotted : (c == 'İ') = false := by
      rw [beq_eq_false_iff_ne]
      rintro rfl
      exact absurd hc (by decide +kernel)
    rw [lowercaseFrom, hsigma, hdotted,
      lowercaseFrom_of_ascii (c :: before) rest fun d hd => h d (List.mem_cons_of_mem _ hd)]
    rfl

end Text

/-! ## Extensions -/

/-- The ends of the names of pages, without their dot. -/
def pageEndings : List (List Char) := [['h', 't', 'm', 'l'], ['h', 't', 'm']]

theorem ascii_pageEndings : ∀ ending ∈ pageEndings, ∀ d ∈ '.' :: ending, d.toNat < 128 := by
  have hall : (pageEndings.all fun ending => ('.' :: ending).all (·.toNat < 128)) = true := by decide
  simpa only [List.all_eq_true, decide_eq_true_eq] using hall

theorem exists_of_isPageName {name : String} (h : Asset.isPageName name = true) :
    ∃ front back : List Char, name.toList = front ++ '.' :: back ∧
      back.map Text.lowerChar ∈ pageEndings := by
  obtain ⟨ending, hmem, hsuffix⟩ : ∃ ending ∈ pageEndings,
      '.' :: ending <:+ Text.lowercaseFrom [] name.toList := by
    unfold Asset.isPageName Text.lowercase at h
    simp only [Bool.or_eq_true, Text.endsWith_iff, String.toList_ofList] at h
    rcases h with h | h
    · exact ⟨['h', 't', 'm', 'l'], by decide, h⟩
    · exact ⟨['h', 't', 'm'], by decide, h⟩
  obtain ⟨front, back, hname, hback⟩ :=
    Text.exists_of_suffix_lowercase (ascii_pageEndings ending hmem) [] name.toList hsuffix
  obtain ⟨dot, back, rfl, hdot, rfl⟩ := List.map_eq_cons_iff.1 hback
  exact ⟨front, back, by rw [hname, Text.lowerChar_dot hdot], hmem⟩

/-- What ends in a part of a name has a file name that ends so. -/
theorem back_of_pageEnding {back : List Char} (h : back.map Text.lowerChar ∈ pageEndings) :
    '.' ∉ back ∧ Path.IsNamePart (String.ofList ('.' :: back)) ∧
      "." ++ Text.lowercase (String.ofList back) ∈ [".html", ".htm"] := by
  have hne : ∀ c : Char, Text.lowerChar c = c → c ∉ pageEndings.flatten → c ∉ back := by
    intro c hc hplain hmem
    refine hplain (List.mem_flatten.2 ⟨_, h, ?_⟩)
    rw [← hc]
    exact List.mem_map_of_mem hmem
  have hdot := hne '.' (by decide) (by decide)
  have hslash := hne '/' (by decide) (by decide)
  refine ⟨hdot, ⟨by simp [hslash], ?_⟩, ?_⟩
  · cases back with
    | nil => exact absurd h (by decide)
    | cons c back =>
      refine ⟨c, by simp, ?_⟩
      rintro rfl
      exact hdot List.mem_cons_self
  · have hlower : Text.lowercaseFrom [] back = back.map Text.lowerChar := by
      refine Text.lowercaseFrom_of_ascii [] back fun c hc => ?_
      exact ascii_pageEndings _ h _ (List.mem_cons_of_mem _ (List.mem_map_of_mem hc))
    rw [Text.lowercase, String.toList_ofList, hlower]
    generalize back.map Text.lowerChar = ending at h
    revert ending
    decide

/-- A name that ends as one of a page has the extension of a page, or none. -/
theorem extension_of_isPageName {name : String} (h : Asset.isPageName name = true) :
    Path.extension name ∈ ["", ".html", ".htm"] := by
  obtain ⟨front, back, hname, hback⟩ := exists_of_isPageName h
  obtain ⟨hdot, hpart, hlower⟩ := back_of_pageEnding hback
  have hsplit : name = String.ofList front ++ String.ofList ('.' :: back) := by
    rw [← String.ofList_append, ← hname, String.ofList_toList]
  rcases Path.extension_append (String.ofList front) hdot hpart with hext | hext
  · rw [hsplit, hext]
    exact List.mem_cons_self
  · rw [hsplit, hext]
    exact List.mem_cons_of_mem _ hlower

theorem examine_of_isPage (options : Options) {asset : Asset} (h : asset.isPage = true) :
    (∃ facts, Survey.examine options asset = .page facts) ∨
      Survey.examine options asset = .unknown := by
  have hext := extension_of_isPageName h
  rw [← Asset.extension] at hext
  simp only [List.mem_cons, List.not_mem_nil, or_false] at hext
  unfold Survey.examine
  rcases hext with hext | hext | hext
  · right
    rw [hext]
    rfl
  · left
    rw [hext]
    exact ⟨_, rfl⟩
  · left
    rw [hext]
    exact ⟨_, rfl⟩

/-- No survey finds a script or a style sheet under the name of a page. -/
theorem isPage_eq_false {options : Options} {filter : IgnoreFilter} {asset : Asset}
    (h : (Survey.surveyFile options filter asset).isScript = true ∨
      (Survey.surveyFile options filter asset).isStyle = true) : asset.isPage = false := by
  cases hpage : asset.isPage with
  | false => rfl
  | true =>
    unfold Survey.surveyFile SurveyedFile.isScript SurveyedFile.isStyle at h
    by_cases hdisabled : Survey.isDisabled filter asset = true
    · simp [hdisabled] at h
    · rcases examine_of_isPage options hpage with ⟨facts, hfacts⟩ | hunknown
      · simp [hdisabled, hfacts] at h
      · simp [hdisabled, hunknown] at h

end AssetAudit
