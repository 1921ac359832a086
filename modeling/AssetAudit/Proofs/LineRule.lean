import AssetAudit.Proofs.TextSearch
import AssetAudit.Survey
import Mathlib.Data.List.Perm.Basic

/-!
# The rules of disabling comments

The comments of an asset become a line rule under the asset's name. A name without wildcards is a
pattern for itself only (`accepts_literal_iff`), so its rule designates the paths that lead from the
root to the same place as the name (`linesOf?_lineRule`). Where different assets stand at different
places, at most one of their rules designates a path, and the order of the rules does not show
(`findSome?_lineRules_perm`).
-/
namespace AssetAudit

/-! ## Patterns without wildcards -/

namespace Text.Glob

theorem headD_tails (ok : List Char → Bool) (text : List Char) :
    (text.tails.map ok).headD false = ok text := by
  cases text <;> rfl

theorem stepRow_tails (x : Char) (pattern : List Char) : ∀ text : List Char,
    stepRow (· == x) text (text.tails.map fun rest => decide (rest = pattern)) =
      text.tails.map fun rest => decide (rest = x :: pattern)
  | [] => by simp [stepRow]
  | c :: text => by
    rw [List.tails, List.map_cons, List.map_cons, stepRow, stepRow_tails x pattern text, headD_tails]
    simp [Bool.beq_eq_decide_eq]

theorem suffixRow_literal : ∀ {pattern : List Char}, '*' ∉ pattern → '?' ∉ pattern →
    ∀ text, suffixRow pattern text = text.tails.map fun rest => decide (rest = pattern)
  | [], _, _, text => by
    rw [suffixRow]
    induction text with
    | nil => rfl
    | cons c text ih => simpa using ih
  | x :: pattern, hstar, hmark, text => by
    rw [List.mem_cons, not_or] at hstar hmark
    rw [suffixRow]
    · rw [suffixRow_literal hstar.2 hmark.2 text, stepRow_tails]
    · rintro rfl
      exact hstar.1 rfl
    · rintro rfl
      exact hmark.1 rfl

/-- A pattern without wildcards accepts itself only. -/
theorem accepts_literal_iff {pattern : String} (hstar : '*' ∉ pattern.toList)
    (hmark : '?' ∉ pattern.toList) (text : String) : accepts pattern text = true ↔ text = pattern := by
  rw [accepts, suffixRow_literal hstar hmark, headD_tails, decide_eq_true_iff, String.toList_inj]

end Text.Glob

/-! ## First hits that agree -/

/-- Where all hits are the same, the first one does not depend on the order. -/
theorem findSome?_perm {α β : Type} {f : α → Option β} {items others : List α}
    (hperm : items.Perm others)
    (hagree : ∀ a ∈ items, ∀ b ∈ items, ∀ x y, f a = some x → f b = some y → x = y) :
    items.findSome? f = others.findSome? f := by
  cases hfirst : items.findSome? f with
  | none =>
    rw [List.findSome?_eq_none_iff] at hfirst
    rw [eq_comm, List.findSome?_eq_none_iff]
    exact fun item hitem => hfirst item (hperm.mem_iff.2 hitem)
  | some x =>
    obtain ⟨a, ha, hfa⟩ := List.exists_of_findSome?_eq_some hfirst
    cases hsecond : others.findSome? f with
    | none =>
      rw [List.findSome?_eq_none_iff] at hsecond
      rw [hsecond a (hperm.mem_iff.1 ha)] at hfa
      cases hfa
    | some y =>
      obtain ⟨b, hb, hfb⟩ := List.exists_of_findSome?_eq_some hsecond
      rw [hagree a ha b (hperm.mem_iff.2 hb) x y hfa hfb]

/-! ## Line rules of assets -/

/-- Whether assets have names without wildcards and stand, if they differ, at different places. -/
structure StandApart (root : String) (assets : List Asset) : Prop where
  literal : ∀ asset ∈ assets, '*' ∉ asset.name.toList ∧ '?' ∉ asset.name.toList
  apart : ∀ a ∈ assets, ∀ b ∈ assets,
    Path.normalize (Path.join root a.name) = Path.normalize (Path.join root b.name) → a = b

theorem lineRule?_eq_some {filter : IgnoreFilter} {asset : Asset} {rule : IgnoreRule}
    (h : Survey.lineRule? filter asset = some rule) :
    rule = .lines asset.name (IgnoreRule.resolve filter.root asset.name)
      (DisableComment.disabledLines asset.content) := by
  unfold Survey.lineRule? at h
  split at h
  · cases h
  · simp only [Option.ite_none_left_eq_some, Option.some.injEq] at h
    exact h.2.symm

/-- The rule of an asset covers its lines at the place where the asset stands. -/
theorem linesOf?_lineRule {filter : IgnoreFilter} {asset : Asset} {rule : IgnoreRule}
    (h : Survey.lineRule? filter asset = some rule)
    (hname : '*' ∉ asset.name.toList ∧ '?' ∉ asset.name.toList) (path : String) :
    rule.linesOf? filter.root path =
      if IgnoreRule.resolve filter.root asset.name = IgnoreRule.resolve filter.root path then
        some (DisableComment.disabledLines asset.content)
      else none := by
  rw [lineRule?_eq_some h, IgnoreRule.linesOf?]
  refine if_congr ?_ rfl rfl
  rw [IgnoreRule.designates, Bool.or_eq_true, beq_iff_eq,
    Text.Glob.accepts_literal_iff hname.1 hname.2]
  constructor
  · rintro (hsame | rfl)
    · exact hsame
    · rfl
  · exact Or.inl

/-- The rules of assets that stand apart can be asked in any order. -/
theorem findSome?_lineRules_perm {filter : IgnoreFilter} {assets others : List Asset}
    (hapart : StandApart filter.root assets) (hperm : assets.Perm others) (path : String) :
    (assets.filterMap (Survey.lineRule? filter)).findSome? (·.linesOf? filter.root path) =
      (others.filterMap (Survey.lineRule? filter)).findSome? (·.linesOf? filter.root path) := by
  refine findSome?_perm (hperm.filterMap _) ?_
  intro rule hrule other hother lines lines' hlines hlines'
  obtain ⟨a, ha, hrule⟩ := List.mem_filterMap.1 hrule
  obtain ⟨b, hb, hother⟩ := List.mem_filterMap.1 hother
  simp only [linesOf?_lineRule hrule (hapart.literal a ha), Option.ite_none_right_eq_some,
    Option.some.injEq] at hlines
  simp only [linesOf?_lineRule hother (hapart.literal b hb), Option.ite_none_right_eq_some,
    Option.some.injEq] at hlines'
  have hab : a = b := hapart.apart a ha b hb (hlines.1.trans hlines'.1.symm)
  rw [← hlines.2, ← hlines'.2, hab]

end AssetAudit
