import AssetAudit.Proofs.DisabledLine
import AssetAudit.Proofs.LicenseSearch
import AssetAudit.Proofs.LowerCase

/-!
# Checks before a search

Before a text is searched for license comments, or for comments that switch the scan off, a quick check
tells whether it may hold one. The check for licenses knows the case of ASCII letters only, and the search
that of all letters; no letter outside ASCII becomes one of the word that is looked for, so a text that
does not pass the check has no license comment (`isLicense_eq_false`, `lineLength?_eq_none`), and cleaning
a text is the two searches, one after the other (`clean_eq`).

Main statement: `quick_checks_lose_nothing`.
-/
namespace AssetAudit

namespace License

/-- A text with its license block comments made blank. -/
def blankBlocks (text : List Char) : List Char := copy nextBlock (.plain 0) text

/-- A text with its license line comments made blank. -/
def blankLines (text : List Char) : List Char := copy nextLine (.plain 0) text

variable {text part : List Char}

theorem not_infix_of_mayHold (h : mayHold text = false) :
    ¬ "license".toList <:+: text.map Char.toLower ∧ ¬ "/*!".toList <:+: text := by
  rw [mayHold, Bool.or_eq_false_iff] at h
  simpa only [Bool.eq_false_iff, ne_eq, Text.contains_iff] using h

/-- No part of a text that does not pass the check is a license comment. -/
theorem isLicense_eq_false (h : mayHold text = false) (hpart : part <:+: text) : isLicense part = false := by
  obtain ⟨hword, hmark⟩ := not_infix_of_mayHold h
  rw [isLicense, Bool.or_eq_false_iff]
  simp only [Bool.eq_false_iff, ne_eq, Text.startsWith_iff, Text.contains_iff]
  constructor
  · intro hstart
    exact hmark (hstart.isInfix.trans hpart)
  · have hlist : (Text.lowercase (String.ofList part)).toList = Text.lowercaseFrom [] part := by
      simp [Text.lowercase]
    rw [hlist]
    intro hlower
    have hplain : Text.PlainWord "license".toList := by
      unfold Text.PlainWord
      decide
    exact hword ((Text.infix_map_toLower hplain (by decide) (by decide) hlower).trans (hpart.map _))

/-- No part of a text that does not pass the check starts with a license comment on one line. -/
theorem lineLength?_eq_none (h : mayHold text = false) (hpart : part <:+: text) :
    lineLength? part = none := by
  obtain ⟨hword, -⟩ := not_infix_of_mayHold h
  cases hlength : lineLength? part with
  | none => rfl
  | some n =>
    obtain ⟨gap, rest, rfl, -⟩ := eq_of_lineLength? hlength
    have hlower : "@license".toList.map Char.toLower = "@license".toList := by decide
    have hmarked : "@license".toList <:+: text.map Char.toLower := by
      rw [← hlower]
      exact (List.IsInfix.trans ⟨'/' :: '/' :: gap, rest, by simp⟩ hpart).map _
    exact absurd ((List.suffix_cons '@' "license".toList).isInfix.trans hmarked) hword

/-- Cleaning a text is blanking its block comments and then its line comments, also if the check says that
there are none. -/
theorem clean_eq (content : String) :
    clean content = String.ofList (blankLines (blankBlocks content.toList)) := by
  cases hheld : mayHold content.toList with
  | true => simp [clean, hheld, blankLines, blankBlocks]
  | false =>
    have hblocks : blankBlocks content.toList = content.toList := by
      refine copy_eq_self fun rest hrest n hnext => ?_
      obtain ⟨-, hlicense⟩ := blanked_of_nextBlock hnext
      rw [isLicense_eq_false hheld ((List.take_prefix n rest).isInfix.trans hrest.isInfix)] at hlicense
      cases hlicense
    have hlines : blankLines content.toList = content.toList := by
      refine copy_eq_self fun rest hrest n hnext => ?_
      have hlength := blanked_of_nextLine hnext
      rw [lineLength?_eq_none hheld hrest.isInfix] at hlength
      cases hlength
    rw [hblocks, hlines]
    simp [clean, hheld]

end License

/-- The quick checks lose nothing. Cleaning a text gives what its two searches give without the check, and
the comments that switch the scan off, for the file or for lines, are those of all lines, whether or not
the text holds the keyword. -/
theorem quick_checks_lose_nothing (content : String) :
    License.clean content =
        String.ofList (License.blankLines (License.blankBlocks content.toList)) ∧
      DisableComment.disablesFile content =
        (DisableComment.lineScopes content).any (·.1 == .file) ∧
      DisableComment.disabledLines content =
        (((DisableComment.lineScopes content).filterMap DisableComment.lineOf?).mergeSort
          (· ≤ ·)).eraseDups := by
  refine ⟨License.clean_eq content, ?_, ?_⟩
  · rw [DisableComment.disablesFile, DisableComment.allScopes_eq_lineScopes]
  · rw [DisableComment.disabledLines, DisableComment.allScopes_eq_lineScopes]

example : License.clean "/* LİCENSE */ /* Lıcense */ //\u00a0@license\n" =
    "/* LİCENSE */ /* Lıcense */            \n" := by decide +kernel

end AssetAudit
