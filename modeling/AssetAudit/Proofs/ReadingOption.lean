import AssetAudit.Proofs.ScriptGlobal

/-!
# What the options of a reading change

A unit can be read as a module or as a classic script, and with patterns of global names to leave out.
Neither has a part in whether the unit can be read, nor in any of its facts but the globals. Patterns only
leave out globals (`treeFacts_ignoring`), and a classic script only has some more of them, in front of the
others (`treeFacts_classic`): those that it makes at its top (`options_change_globals_only`).
-/
namespace AssetAudit.Script

/-- Whether no pattern accepts the name of a global. -/
def GlobalVariable.IsKept (patterns : List String) (g : GlobalVariable) : Prop :=
  ∀ pattern ∈ patterns, Text.Glob.accepts pattern g.name = false

instance (patterns : List String) (g : GlobalVariable) : Decidable (g.IsKept patterns) :=
  inferInstanceAs (Decidable (∀ _ ∈ patterns, _))

theorem not_anyAccepts (patterns : List String) (g : GlobalVariable) :
    (!Text.Glob.anyAccepts patterns g.name) = decide (g.IsKept patterns) := by
  rw [Bool.eq_iff_iff, decide_eq_true_iff]
  simp [Text.Glob.anyAccepts, GlobalVariable.IsKept]

section Trees

variable (dialect : Dialect) (patterns : List String) (unit : List Char) (tree : Tree)

/-- The globals of a unit are what is kept of those at its top and of those that its nodes show. -/
theorem globals_treeFacts (reading : Reading) : (treeFacts reading unit tree).globals =
    ((if reading.classic then scriptGlobals unit tree else []) ++
      (tree.visits.flatMap (factsAt unit)).filterMap Fact.global?).filter
        (GlobalVariable.IsKept reading.ignoredGlobals) := by
  simp only [treeFacts, Facts.ofList, not_anyAccepts]

theorem treeFacts_ignoring (classic : Bool) : treeFacts ⟨dialect, classic, patterns⟩ unit tree =
    let facts := treeFacts ⟨dialect, classic, []⟩ unit tree
    { facts with globals := facts.globals.filter (GlobalVariable.IsKept patterns) } := by
  have hall : ∀ g : GlobalVariable, g.IsKept [] := fun g pattern h => absurd h List.not_mem_nil
  have hglobals : (treeFacts ⟨dialect, classic, patterns⟩ unit tree).globals =
      (treeFacts ⟨dialect, classic, []⟩ unit tree).globals.filter (GlobalVariable.IsKept patterns) := by
    simp only [globals_treeFacts, hall, decide_true, List.filter_true]
  simp only [← hglobals]
  rfl

theorem treeFacts_classic : treeFacts ⟨dialect, true, patterns⟩ unit tree =
    let facts := treeFacts ⟨dialect, false, patterns⟩ unit tree
    { facts with
      globals := (scriptGlobals unit tree).filter (GlobalVariable.IsKept patterns) ++ facts.globals } := by
  have hglobals : (treeFacts ⟨dialect, true, patterns⟩ unit tree).globals =
      (scriptGlobals unit tree).filter (GlobalVariable.IsKept patterns) ++
        (treeFacts ⟨dialect, false, patterns⟩ unit tree).globals := by
    simp [globals_treeFacts]
  simp only [← hglobals]
  rfl

end Trees

/-- Patterns and the mode of a reading change the globals only. With patterns, the globals are those without
patterns whose names none of them accepts. A classic script has some globals in front of those of a module:
the ones that it makes at its top, in the order of the text, if they are kept. -/
theorem options_change_globals_only (dialect : Dialect) (code : String) :
    (∀ classic patterns, extract ⟨dialect, classic, patterns⟩ code =
      (extract ⟨dialect, classic, []⟩ code).map fun facts =>
        { facts with globals := facts.globals.filter fun g =>
            ∀ pattern ∈ patterns, Text.Glob.accepts pattern g.name = false }) ∧
    ∀ patterns, ∃ extra : List GlobalVariable,
      extract ⟨dialect, true, patterns⟩ code =
        (extract ⟨dialect, false, patterns⟩ code).map (fun facts =>
          { facts with globals := extra ++ facts.globals }) ∧
      ∀ tree, parse dialect code.toList = .ok tree →
        extra.Pairwise (fun g other => g.location.start.Before other.location.start) ∧
        ∀ g, g ∈ extra ↔ MakesGlobal code.toList tree g ∧
          ∀ pattern ∈ patterns, Text.Glob.accepts pattern g.name = false := by
  unfold extract
  cases hparse : parse dialect code.toList with
  | error offset =>
    refine ⟨fun classic patterns => ?_, fun patterns => ⟨[], ?_, ?_⟩⟩
    · simp [hparse, Except.map]
    · simp [hparse, Except.map]
    · intro tree h
      cases h
  | ok tree =>
    refine ⟨fun classic patterns => ?_, fun patterns =>
      ⟨(scriptGlobals code.toList tree).filter (GlobalVariable.IsKept patterns), ?_, ?_⟩⟩
    · simp only [hparse, Except.map]
      rw [treeFacts_ignoring]
      rfl
    · simp only [hparse, Except.map]
      rw [treeFacts_classic]
    · intro other h
      cases h
      have hplaced := placed_parse hparse
      have hmade := wellMade_parse hparse
      refine ⟨(pairwise_scriptGlobals hplaced hmade).sublist List.filter_sublist, fun g => ?_⟩
      rw [List.mem_filter, mem_scriptGlobals hplaced hmade, decide_eq_true_iff]
      rfl

example :
    let code := "var a;\nd = 3;\nwindow.e = 4;"
    let names (classic : Bool) (patterns : List String) :=
      (extract ⟨.javascript, classic, patterns⟩ code).toOption.map fun facts => facts.globals.map (·.name)
    names false [] = some ["e"] ∧ names true [] = some ["a", "d", "e"] ∧
      names true ["d*"] = some ["a", "e"] := by
  decide +kernel

end AssetAudit.Script
