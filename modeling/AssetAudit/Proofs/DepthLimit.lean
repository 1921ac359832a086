import AssetAudit.Proofs.Walk
import Mathlib.Data.List.TakeWhile

/-!
# Walks with a depth limit

A walk with a depth limit is the deeper walk, cut before the first file beyond the limit. Both walks
go in step while the head of the queue is within the limit (`Walk.cut`): neither the queue nor the
visited files differ, since a limit keeps a file out but says nothing about where it leads. The depths
in a queue never decrease, so behind the first entry beyond the limit there are only others like it,
and the limited walk visits nothing more.
-/
namespace AssetAudit.Dependency

variable {disk : Disk} {settings : Settings} {start : String}

/-- The settings with another depth limit. -/
def Settings.upTo (settings : Settings) (limit : Option Nat) : Settings :=
  { settings with maxDepth := limit }

theorem Settings.allows_upTo_some {limit depth : Nat} :
    (settings.upTo (some limit)).Allows depth ↔ depth ≤ limit := by
  simp [Settings.Allows, Settings.upTo]

theorem Settings.allows_upTo_none {depth : Nat} : (settings.upTo none).Allows depth := by
  intro limit hlimit
  cases hlimit

theorem found_upTo (limit : Option Nat) (file : String) (depth : Nat) :
    found disk (settings.upTo limit) file depth = found disk settings file depth := rfl

theorem chain_upTo {limit : Option Nat} {length : Nat} {file : String} :
    Chain disk (settings.upTo limit) start length file ↔ Chain disk settings start length file := by
  constructor
  · intro h
    induction h with
    | here hq => exact .here hq
    | next _ edge ok ih => exact .next ih edge ok
  · intro h
    induction h with
    | here hq => exact .here hq
    | next _ edge ok ih => exact .next ih edge ok

theorem isDistance_upTo {limit : Option Nat} {file : String} {length : Nat} :
    IsDistance disk (settings.upTo limit) start file length ↔
      IsDistance disk settings start file length := by
  simp only [IsDistance, chain_upTo]

/-- Within both limits an entry is due to both walks or to none. -/
theorem isDue_upTo {limit : Nat} {visited : List (String × Nat)} {entry : String × Nat}
    (hdeeper : ∀ depth ≤ limit, settings.Allows depth) :
    isDue disk (settings.upTo (some limit)) visited entry = true ↔
      entry.2 ≤ limit ∧ isDue disk settings visited entry = true := by
  rw [isDue_iff, isDue_iff, Settings.allows_upTo_some]
  constructor
  · rintro ⟨hnew, hle, hq⟩
    exact ⟨hle, hnew, hdeeper _ hle, hq⟩
  · rintro ⟨hle, hnew, -, hq⟩
    exact ⟨hnew, hle, hq⟩

/-- A queue of entries beyond the limit is passed over to its end. -/
theorem Walk.eq_of_beyond {visited queue result : List (String × Nat)}
    (hw : Walk disk settings visited queue result)
    (hbeyond : ∀ entry ∈ queue, ¬settings.Allows entry.2) : result = visited := by
  induction hw with
  | done => rfl
  | pass _ _ ih => exact ih fun entry he => hbeyond entry (List.mem_cons_of_mem _ he)
  | visit due _ _ =>
    exact absurd (isDue_iff.1 due).2.1 (hbeyond _ List.mem_cons_self)

/-- What a limited walk visits is what the deeper walk visits before the first file beyond the limit. -/
theorem Walk.cut {limit : Nat} {visited queue deep : List (String × Nat)}
    (hdeeper : ∀ depth ≤ limit, settings.Allows depth) (hw : Walk disk settings visited queue deep) :
    ∀ {limited : List (String × Nat)}, WalkInv disk settings start visited queue →
      (∀ entry ∈ visited, entry.2 ≤ limit) →
      Walk disk (settings.upTo (some limit)) visited queue limited →
      limited = deep.takeWhile fun entry => decide (entry.2 ≤ limit) := by
  -- by induction on the deeper walk, the limited one taking the same case as long as it can
  induction hw with
  | done visited =>
    intro limited _ hwithin hlimited
    cases hlimited
    exact (List.takeWhile_eq_self_iff.2 (by simpa using hwithin)).symm
  | @pass visited queue deep entry due _ ih =>
    intro limited hinv hwithin hlimited
    cases hlimited with
    | pass _ rest => exact ih (hinv.pass due) hwithin rest
    | visit due' _ =>
      rw [((isDue_upTo hdeeper).1 due').2] at due
      cases due
  | @visit visited queue deep entry due hrest ih =>
    intro limited hinv hwithin hlimited
    cases hlimited with
    | visit due' rest =>
      rw [found_upTo] at rest
      refine ih (hinv.visit due) ?_ rest
      intro other ho
      rcases List.mem_append.1 ho with ho | ho
      · exact hwithin other ho
      · rw [List.mem_singleton.1 ho]
        exact ((isDue_upTo hdeeper).1 due').1
    | pass due' rest =>
      have hbeyond : ¬entry.2 ≤ limit := by
        intro hle
        rw [(isDue_upTo hdeeper).2 ⟨hle, due⟩] at due'
        cases due'
      have hend : limited = visited := by
        refine rest.eq_of_beyond fun other ho => ?_
        rw [Settings.allows_upTo_some]
        have := hinv.le_head.2 other ho
        omega
      obtain ⟨later, rfl⟩ := hrest.prefix_result
      rw [hend, List.append_assoc, List.takeWhile_append_of_pos (by simpa using hwithin),
        List.singleton_append, List.takeWhile_cons_of_neg (by simpa using hbeyond), List.append_nil]

/-- A walk with a smaller limit visits the first files of every deeper walk: those whose distance is
within the limit. -/
theorem reachable_upTo_isPrefix (disk : Disk) (settings : Settings) (entry : String)
    {limit deeper : Nat} (hle : limit ≤ deeper) :
    let start := Path.normalize (Path.join settings.base entry)
    let files (limit : Option Nat) := reachable disk (settings.upTo limit) entry
    files (some limit) <+: files (some deeper) ∧ files (some limit) <+: files none ∧
    ∃ depths, List.Forall₂ (IsDistance disk settings start) (files none) depths ∧
      depths.Pairwise (· ≤ ·) ∧
      files (some limit) =
        (((files none).zip depths).takeWhile fun file => file.2 ≤ limit).map Prod.fst := by
  intro start files
  obtain ⟨limited, hlimited, hfiles⟩ := walk_reachable disk (settings.upTo (some limit)) entry
  have hcut : ∀ bound, (∀ depth ≤ limit, (settings.upTo bound).Allows depth) → ∀ result,
      Walk disk (settings.upTo bound) [] [(start, 0)] result →
      limited = result.takeWhile fun file => decide (file.2 ≤ limit) := by
    intro bound hdeeper result hw
    exact Walk.cut hdeeper hw (walkInv_start _ _ _) (by simp) hlimited
  have hfirst : ∀ bound, (∀ depth ≤ limit, (settings.upTo bound).Allows depth) →
      files (some limit) <+: files bound := by
    intro bound hdeeper
    obtain ⟨result, hw, hresult⟩ := walk_reachable disk (settings.upTo bound) entry
    rw [show files (some limit) = _ from hfiles.symm, show files bound = _ from hresult.symm,
      hcut bound hdeeper result hw]
    exact (List.takeWhile_prefix _).map _
  refine ⟨hfirst _ fun depth hd => ?_, hfirst _ fun depth _ => Settings.allows_upTo_none, ?_⟩
  · exact Settings.allows_upTo_some.2 (Nat.le_trans hd hle)
  · obtain ⟨result, hw, hresult⟩ := walk_reachable disk (settings.upTo none) entry
    have hinv : WalkInv disk (settings.upTo none) start result [] := hw.inv (walkInv_start _ _ _)
    have hnone : files none = result.map Prod.fst := hresult.symm
    refine ⟨result.map Prod.snd, ?_, ?_, ?_⟩
    · rw [hnone, List.forall₂_map_left_iff, List.forall₂_map_right_iff, List.forall₂_same]
      exact fun found hfound => isDistance_upTo.1 (hinv.isDistance hfound)
    · have hsorted := hinv.sorted
      rwa [List.append_nil] at hsorted
    · have hzip : (result.map Prod.fst).zip (result.map Prod.snd) = result := by
        rw [← List.unzip_fst, ← List.unzip_snd, List.zip_unzip]
      rw [hnone, hzip, ← hcut none (fun _ _ => Settings.allows_upTo_none) result hw]
      exact hfiles.symm

/-- Two sheets that import each other, one that both import, and one behind it. -/
theorem sheets_within_one_import_first :
    let disk : Disk := ⟨["app"], [(["app", "a.css"], .text "@import 'b.css'; @import 'c.css';"),
      (["app", "b.css"], .text "@import 'a.css'; @import 'c.css';"),
      (["app", "c.css"], .text "@import 'd.css';"), (["app", "d.css"], .text "@import 'a.css';")]⟩
    let settings : Settings := ⟨"/app", none, [], [], []⟩
    let files (limit : Option Nat) := reachable disk (settings.upTo limit) "a.css"
    files (some 1) = ["/app/a.css", "/app/b.css", "/app/c.css"] ∧
      files none = ["/app/a.css", "/app/b.css", "/app/c.css", "/app/d.css"] ∧
      files (some 0) <+: files (some 1) ∧ files (some 1) <+: files none := by
  intro disk settings files
  refine ⟨by decide +kernel, by decide +kernel, ?_, ?_⟩
  · exact (reachable_upTo_isPrefix disk settings "a.css" (Nat.zero_le 1)).1
  · exact (reachable_upTo_isPrefix disk settings "a.css" (Nat.le_refl 1)).2.1

end AssetAudit.Dependency
