import AssetAudit.Report
import Mathlib.Data.String.Basic

/-!
# Files in the order of their names

The results of files are kept in the order of the files' names, each file once: `updateFile` keeps
them so (`Ordered.updateFile`). In such a list it is an update of one entry
(`Ordered.lookup_updateFile`), and files that come in their order are put at the end one after
the other (`Ordered.updateFile_of_last`).
-/
namespace AssetAudit

/-- Whether files stand in the order of their names, each once. -/
def Ordered (files : FileResults) : Prop := files.Pairwise (·.1 < ·.1)

instance (files : FileResults) : Decidable (Ordered files) :=
  inferInstanceAs (Decidable (files.Pairwise (·.1 < ·.1)))

theorem lookup_cons_eq {β : Type} (other : String) (b : β) (rest : List (String × β)) (name : String) :
    ((other, b) :: rest).lookup name = if name = other then some b else rest.lookup name := by
  by_cases h : name = other
  · simp [h]
  · simp [List.lookup_cons, beq_eq_false_iff_ne.2 h, h]

variable {file : String} {change : Results → Results} {files : FileResults}

theorem mem_updateFile {entry : String × Results} :
    entry ∈ updateFile file change files → entry.1 = file ∨ entry ∈ files := by
  induction files with
  | nil =>
    intro h
    rw [updateFile, List.mem_singleton] at h
    exact Or.inl (by rw [h])
  | cons head rest ih =>
    obtain ⟨other, results⟩ := head
    intro h
    rw [updateFile] at h
    split at h
    · rcases List.mem_cons.1 h with rfl | h
      · exact Or.inl rfl
      · exact Or.inr (List.mem_cons_of_mem _ h)
    · split at h
      · rcases List.mem_cons.1 h with rfl | h
        · exact Or.inl rfl
        · exact Or.inr h
      · rcases List.mem_cons.1 h with rfl | h
        · exact Or.inr List.mem_cons_self
        · exact (ih h).imp_right (List.mem_cons_of_mem _)

namespace Ordered

theorem updateFile (h : Ordered files) : Ordered (updateFile file change files) := by
  induction files with
  | nil => exact List.pairwise_singleton _ _
  | cons head rest ih =>
    obtain ⟨other, results⟩ := head
    obtain ⟨hhead, hrest⟩ := List.pairwise_cons.1 h
    rw [AssetAudit.updateFile]
    split
    · rename_i hsame
      rw [beq_iff_eq.1 hsame]
      exact List.pairwise_cons.2 ⟨hhead, hrest⟩
    · rename_i hother
      split
      · rename_i hbefore
        refine List.pairwise_cons.2 ⟨?_, h⟩
        intro entry hentry
        rcases List.mem_cons.1 hentry with rfl | hentry
        · exact hbefore
        · exact hbefore.trans (hhead entry hentry)
      · rename_i hafter
        have hlt : other < file :=
          (lt_or_gt_of_ne fun heq => hother (beq_iff_eq.2 heq)).resolve_left hafter
        refine List.pairwise_cons.2 ⟨?_, ih hrest⟩
        intro entry hentry
        rcases mem_updateFile hentry with hfile | hold
        · rw [hfile]
          exact hlt
        · exact hhead entry hold

theorem nodup (h : Ordered files) : (files.map (·.1)).Nodup :=
  (List.pairwise_map.2 h).imp LT.lt.ne

/-- A name before all others is not among them. -/
theorem lookup_eq_none {name : String} (h : ∀ entry ∈ files, name < entry.1) :
    files.lookup name = none := by
  rw [List.lookup_eq_none_iff]
  intro entry hentry
  exact bne_iff_ne.2 (h entry hentry).ne

theorem lookup_updateFile (h : Ordered files) (name : String) :
    (AssetAudit.updateFile file change files).lookup name =
      if name = file then some (change ((files.lookup file).getD {})) else files.lookup name := by
  induction files with
  | nil => rw [AssetAudit.updateFile, lookup_cons_eq]; rfl
  | cons head rest ih =>
    obtain ⟨other, results⟩ := head
    obtain ⟨hhead, hrest⟩ := List.pairwise_cons.1 h
    rw [AssetAudit.updateFile]
    by_cases hsame : file = other
    · subst hsame
      by_cases hname : name = file
      · simp [hname]
      · simp [hname, lookup_cons_eq]
    · by_cases hbefore : file < other
      · have hnone : ((other, results) :: rest).lookup file = none := by
          refine lookup_eq_none fun entry hentry => ?_
          rcases List.mem_cons.1 hentry with rfl | hentry
          · exact hbefore
          · exact hbefore.trans (hhead entry hentry)
        simp only [beq_iff_eq, hsame, hbefore, if_false, if_true, hnone]
        rw [lookup_cons_eq]
        rfl
      · by_cases hname : name = other
        · subst hname
          simp [hsame, hbefore, Ne.symm hsame]
        · simp [hsame, hbefore, lookup_cons_eq, hname, ih hrest]

/-- What comes after all files is put at their end. -/
theorem updateFile_of_last (h : ∀ entry ∈ files, entry.1 < file) :
    AssetAudit.updateFile file change files = files ++ [(file, change {})] := by
  induction files with
  | nil => rfl
  | cons head rest ih =>
    obtain ⟨other, results⟩ := head
    have hlt : other < file := h _ List.mem_cons_self
    rw [AssetAudit.updateFile, if_neg (by simpa using hlt.ne'), if_neg hlt.not_gt,
      ih fun entry hentry => h entry (List.mem_cons_of_mem _ hentry)]
    rfl

end Ordered
end AssetAudit
