import AssetAudit.Analysis.Definition
import AssetAudit.Proofs.AbsolutePath

/-!
# Keys that tell declarations apart

The key of a declaration is the path of its file from the root, or its whole path if it stands elsewhere,
and then line and column. A number has no colon in it, so the two colons before line and column are the last
ones of a key, whatever the file is named (`append_colon_inj`). The path from the root is the end of the
whole path (`IsNormal.relative_isSuffix`) and not absolute, so the two ways to write a file do not meet
(`isAbsolute_relative_iff`), and files with one path from the root are one file (`relative_inj`). Hence keys
agree exactly for one place in one file (`definitionKey_eq_iff`).
-/
namespace AssetAudit

/-! ## Paths from a root -/

namespace Path

/-- Without its first component a list in normal form is one still, and has no root. -/
theorem NormalComponents.of_cons {first : Component} {rest : List Component}
    (h : NormalComponents (first :: rest)) : NormalComponents rest ∧ .root ∉ rest := by
  obtain ⟨stem, hstem, names, hnames, heq⟩ := h
  simp only [stems, List.mem_cons, List.not_mem_nil, or_false] at hstem
  rcases hstem with rfl | rfl | rfl | rfl
  · cases names with
    | nil => cases heq
    | cons name names =>
      obtain ⟨-, rfl⟩ := List.cons.inj heq
      exact ⟨⟨[], by simp [stems], names, fun other ho => hnames other (by simp [ho]), rfl⟩, by simp⟩
  · obtain ⟨-, rfl⟩ := List.cons.inj heq
    exact ⟨⟨[], by simp [stems], names, hnames, rfl⟩, by simp⟩
  · obtain ⟨-, rfl⟩ := List.cons.inj heq
    exact ⟨⟨[], by simp [stems], names, hnames, rfl⟩, by simp⟩
  · obtain ⟨-, rfl⟩ := List.cons.inj heq
    exact ⟨⟨[.parent], by simp [stems], names, hnames, rfl⟩, by simp⟩

/-- The end of a list in normal form is in normal form, and the root stands only at the start. -/
theorem NormalComponents.of_append : ∀ {before after : List Component},
    NormalComponents (before ++ after) → NormalComponents after ∧ (before ≠ [] → .root ∉ after)
  | [], _, h => ⟨h, fun hne => absurd rfl hne⟩
  | first :: before, after, h => by
    obtain ⟨hrest, hroot⟩ := h.of_cons
    exact ⟨hrest.of_append.1, fun _ hmem => hroot (List.mem_append_right before hmem)⟩

theorem components_ne_nil {path : String} (h : isAbsolute path = true) : components path ≠ [] := by
  obtain ⟨rest, hcomponents, -⟩ := components_absolute h
  simp [hcomponents]

/-- Behind some components the others are written as they are alone. -/
theorem render_append {before after : List Component} (hbefore : before ≠ []) (hafter : after ≠ [])
    (hroot : .root ∉ after) :
    render (before ++ after) = "/".intercalate (before.map Component.text) ++ "/" ++ render after := by
  have hlength : 2 ≤ (before ++ after).length := by
    rw [List.length_append]
    exact Nat.add_le_add (List.length_pos_of_ne_nil hbefore) (List.length_pos_of_ne_nil hafter)
  have hwhole : before ++ after ≠ [.root] := by
    intro heq
    rw [heq] at hlength
    exact absurd hlength (by decide)
  have hrest : after ≠ [.root] := by
    rintro rfl
    exact hroot List.mem_cons_self
  rw [render_eq, render_eq, textsOf_eq (by simp [hbefore]) hwhole, textsOf_eq hafter hrest, List.map_append,
    String.intercalate_append_of_ne_nil (by simpa using hbefore) (by simpa using hafter)]

theorem stripBase?_eq_some_iff {root path : String} {rest : List Component} :
    stripBase? root path = some rest ↔ components root ++ rest = components path :=
  List.isPrefixOf?_eq_some_iff_append_eq

theorem IsNormal.of_stripBase? {root path : String} {rest : List Component} (h : IsNormal path)
    (hrest : stripBase? root path = some rest) : NormalComponents rest := by
  have hpath := h.components
  rw [← stripBase?_eq_some_iff.1 hrest] at hpath
  exact hpath.of_append.1

theorem IsNormal.components_relative {path : String} (h : IsNormal path) (root : String) :
    Path.components (relative root path) = (stripBase? root path).getD (Path.components path) := by
  unfold relative
  split
  · rename_i rest hrest
    rw [(h.of_stripBase? hrest).components_render, hrest, Option.getD_some]
  · rename_i hnone
    rw [hnone, Option.getD_none]

section Root

variable {root path : String}

/-- Behind an absolute root there is no root. -/
theorem root_notMem_of_stripBase? {rest : List Component} (hroot : isAbsolute root = true)
    (h : IsNormal path) (hrest : stripBase? root path = some rest) : .root ∉ rest := by
  have hpath := h.components
  rw [← stripBase?_eq_some_iff.1 hrest] at hpath
  exact hpath.of_append.2 (components_ne_nil hroot)

/-- Only a file outside of the root is written with its whole path. -/
theorem isAbsolute_relative_iff (hroot : isAbsolute root = true) (hpath : isAbsolute path = true)
    (h : IsNormal path) : isAbsolute (relative root path) = true ↔ stripBase? root path = none := by
  rw [isAbsolute_iff_mem, h.components_relative root]
  cases hrest : stripBase? root path with
  | none => simpa using (isAbsolute_iff_mem path).1 hpath
  | some rest => simpa using root_notMem_of_stripBase? hroot h hrest

/-- Two files with the same path from the root are one file. -/
theorem relative_inj {other : String} (hroot : isAbsolute root = true) (hpath : isAbsolute path = true)
    (hother : isAbsolute other = true) (h : IsNormal path) (h' : IsNormal other)
    (heq : relative root path = relative root other) : path = other := by
  have hrest : stripBase? root path = none ↔ stripBase? root other = none := by
    rw [← isAbsolute_relative_iff hroot hpath h, heq, isAbsolute_relative_iff hroot hother h']
  have hcomponents := congrArg components heq
  rw [h.components_relative, h'.components_relative] at hcomponents
  refine h.eq_of_components h' ?_
  cases hp : stripBase? root path with
  | none =>
    rw [hp, hrest.1 hp] at hcomponents
    exact hcomponents
  | some rest =>
    cases ho : stripBase? root other with
    | none => rw [hrest.2 ho] at hp; cases hp
    | some rest' =>
      rw [hp, ho] at hcomponents
      rw [← stripBase?_eq_some_iff.1 hp, ← stripBase?_eq_some_iff.1 ho]
      exact congrArg _ hcomponents

/-- The path from the root is the end of the whole path. -/
theorem IsNormal.relative_isSuffix (h : IsNormal path) (hroot : isAbsolute root = true) :
    (relative root path).toList <:+ path.toList := by
  unfold relative
  split
  · rename_i rest hrest
    cases rest with
    | nil => exact List.nil_suffix
    | cons first rest =>
      have hpath := h.render
      rw [← stripBase?_eq_some_iff.1 hrest, render_append (components_ne_nil hroot) (by simp)
        (root_notMem_of_stripBase? hroot h hrest)] at hpath
      rw [← hpath, String.toList_append]
      exact List.suffix_append _ _
  · exact List.suffix_refl _

end Root

/-- A path by which a file is looked up: absolute, in normal form and with slashes only. -/
structure IsCanonical (path : String) : Prop where
  absolute : isAbsolute path = true
  normal : IsNormal path
  slashes : '\\' ∉ path.toList

theorem IsCanonical.forward_relative {root path : String} (h : IsCanonical path)
    (hroot : isAbsolute root = true) : forward (relative root path) = relative root path :=
  forward_eq_self fun hmem => h.slashes ((h.normal.relative_isSuffix hroot).subset hmem)

end Path

/-! ## Keys -/

namespace Analysis

open AssetAudit.Path (isAbsolute IsCanonical)

theorem colon_notMem_toDigits (n : Nat) : ':' ∉ Nat.toDigits 10 n := by
  intro hmem
  exact absurd (Nat.isDigit_of_mem_toDigits (by decide) (by decide) hmem) (by decide)

theorem toDigits_inj {n m : Nat} (h : Nat.toDigits 10 n = Nat.toDigits 10 m) : n = m := by
  have hvalue := congrArg (Nat.ofDigitChars 10 · 0) h
  simpa only [Nat.ofDigitChars_ten_toDigits] using hvalue

/-- A text with a colon and a number behind it is cut at that colon. -/
theorem splitLast?_colon (text : String) (n : Nat) :
    Text.splitLast? ':' (text ++ ":" ++ toString n).toList = some (text.toList, Nat.toDigits 10 n) := by
  have hchars : (text ++ ":" ++ toString n).toList = text.toList ++ ':' :: Nat.toDigits 10 n := by
    simp
  rw [hchars, Text.splitLast?_append text.toList (colon_notMem_toDigits n)]

/-- A text and a number can be told from the text with a colon and the number behind it. -/
theorem append_colon_inj {text other : String} {n m : Nat}
    (h : text ++ ":" ++ toString n = other ++ ":" ++ toString m) : text = other ∧ n = m := by
  have hparts := splitLast?_colon text n
  rw [h, splitLast?_colon, Option.some.injEq, Prod.mk.injEq, String.toList_inj] at hparts
  exact ⟨hparts.1.symm, toDigits_inj hparts.2.symm⟩

/-- Two declarations have one key exactly if they start at one place of one file. This holds of all files
that are named by absolute paths in normal form without backslashes, whether they are below the root or
not and whatever their names are. -/
theorem definitionKey_eq_iff {root file other : String} (hroot : isAbsolute root = true)
    (hfile : IsCanonical file) (hother : IsCanonical other) (place place' : Location) :
    definitionKey root file place = definitionKey root other place' ↔
      file = other ∧ place.start = place'.start := by
  unfold definitionKey
  rw [hfile.forward_relative hroot, hother.forward_relative hroot]
  constructor
  · intro h
    obtain ⟨h, hcolumn⟩ := append_colon_inj h
    obtain ⟨h, hline⟩ := append_colon_inj h
    exact ⟨Path.relative_inj hroot hfile.absolute hother.absolute hfile.normal hother.normal h,
      congrArg₂ Position.mk hline hcolumn⟩
  · rintro ⟨rfl, hstart⟩
    rw [hstart]

theorem same_name_outside_root :
    let place : Location := ⟨⟨2, 3⟩, ⟨2, 9⟩⟩
    isAbsolute "/app" = true ∧ IsCanonical "/app/a:1" ∧ IsCanonical "/a:1" ∧
      definitionKey "/app" "/app/a:1" place = "a:1:2:3" ∧ definitionKey "/app" "/a:1" place = "/a:1:2:3" ∧
      ∀ line column, definitionKey "/app" "/app/a:1" place ≠
        definitionKey "/app" "/a:1" ⟨⟨line, column⟩, place.stop⟩ := by
  intro place
  have hinside : IsCanonical "/app/a:1" := ⟨rfl, by unfold Path.IsNormal; decide, by decide⟩
  have houtside : IsCanonical "/a:1" := ⟨rfl, by unfold Path.IsNormal; decide, by decide⟩
  refine ⟨rfl, hinside, houtside, by decide, by decide, fun line column heq => ?_⟩
  exact absurd ((definitionKey_eq_iff rfl hinside houtside _ _).1 heq).1 (by decide)

end Analysis
end AssetAudit
