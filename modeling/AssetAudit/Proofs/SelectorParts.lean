import AssetAudit.Analysis.Style
import AssetAudit.Proofs.SelectorForm
import Mathlib.Data.List.DropRight

/-!
# The parts of a selector

Runs between gaps come apart at every gap (`runs_append_gap`), so gaps at the ends of a text do not show in
its runs. Spelling a selector drops and writes gaps only where a gap is left: the machine that spells it and
the one that reads its runs go through the text side by side (`runsFrom_normalizeFrom`). So a selector and
its spelling have the same parts (`parts_normalize`) and act outside their module together
(`isGlobal_normalize`).
-/
namespace AssetAudit

namespace Text

section Runs

variable {gap : Char → Bool} {c : Char}

/-- The run under way once it has ended. -/
def closeRun (run : List Char) : List (List Char) := if run.isEmpty then [] else [run.reverse]

theorem runsFrom_gap (h : gap c = true) (run text : List Char) :
    runsFrom gap run (c :: text) = closeRun run ++ runsFrom gap [] text := by
  rw [runsFrom, if_pos h, closeRun]
  cases run <;> rfl

theorem runsFrom_other (h : gap c = false) (run text : List Char) :
    runsFrom gap run (c :: text) = runsFrom gap (c :: run) text := by
  rw [runsFrom, if_neg (by simp [h])]

theorem runsFrom_append_gap (h : gap c = true) (b : List Char) : ∀ a run : List Char,
    runsFrom gap run (a ++ c :: b) = runsFrom gap run a ++ runsFrom gap [] b
  | [], run => runsFrom_gap h run b
  | d :: a, run => by
    rw [List.cons_append]
    cases hd : gap d with
    | true => rw [runsFrom_gap hd, runsFrom_gap hd, runsFrom_append_gap h b a, List.append_assoc]
    | false => rw [runsFrom_other hd, runsFrom_other hd, runsFrom_append_gap h b a]

/-- A gap divides the runs of a text. -/
theorem runs_append_gap (h : gap c = true) (a b : List Char) :
    runs gap (a ++ c :: b) = runs gap a ++ runs gap b :=
  runsFrom_append_gap h b a []

theorem runs_cons_gap (h : gap c = true) (text : List Char) : runs gap (c :: text) = runs gap text :=
  runs_append_gap h [] text

theorem runs_concat_gap (h : gap c = true) (text : List Char) : runs gap (text ++ [c]) = runs gap text := by
  rw [runs_append_gap h]
  exact List.append_nil _

theorem runsFrom_gapless : ∀ {text : List Char} (run : List Char), (∀ c ∈ text, gap c = false) →
    runsFrom gap run text = closeRun (text.reverse ++ run)
  | [], run, _ => rfl
  | c :: text, run, h => by
    rw [runsFrom_other (h c List.mem_cons_self),
      runsFrom_gapless _ fun d hd => h d (List.mem_cons_of_mem _ hd), List.reverse_cons, List.append_assoc]
    rfl

theorem runs_gapless {text : List Char} (h : ∀ c ∈ text, gap c = false) :
    runs gap text = if text = [] then [] else [text] := by
  rw [runs, runsFrom_gapless [] h, closeRun]
  simp

/-- The runs that a text has before its last gap stay what they are, whatever follows it. -/
theorem runs_append_last (gap : Char → Bool) (a b : List Char) : runs gap (a ++ b) =
    runs gap (a.rdropWhile (!gap ·)) ++ runs gap (a.rtakeWhile (!gap ·) ++ b) := by
  have hsplit : a ++ b = a.rdropWhile (!gap ·) ++ (a.rtakeWhile (!gap ·) ++ b) := by
    rw [← List.append_assoc, List.rdropWhile_append_rtakeWhile]
  rw [hsplit]
  rcases List.eq_nil_or_concat (a.rdropWhile (!gap ·)) with hnil | ⟨front, c, hfront⟩
  · rw [hnil]
    rfl
  · have hgap : gap c = true := by
      have hlast := List.rdropWhile_last_not (!gap ·) a (by simp [hfront])
      simpa [hfront] using hlast
    rw [hfront, List.concat_eq_append, runs_concat_gap hgap, List.append_assoc]
    exact runs_append_gap hgap front _

/-- The runs that a text has behind its first gap stay what they are, whatever comes before it. -/
theorem runs_append_first (gap : Char → Bool) (a b : List Char) : runs gap (a ++ b) =
    runs gap (a ++ b.takeWhile (!gap ·)) ++ runs gap (b.dropWhile (!gap ·)) := by
  have hsplit : a ++ b = (a ++ b.takeWhile (!gap ·)) ++ b.dropWhile (!gap ·) := by
    rw [List.append_assoc, List.takeWhile_append_dropWhile]
  rw [hsplit]
  cases hback : b.dropWhile (!gap ·) with
  | nil => rw [List.append_nil]; exact (List.append_nil _).symm
  | cons c back =>
    have hgap : gap c = true := by
      have hhead := List.head?_dropWhile_not (!gap ·) b
      simpa [hback] using hhead
    rw [runs_append_gap hgap, runs_cons_gap hgap]

variable {drop : Char → Bool} (hdrop : ∀ c, drop c = true → gap c = true)
include hdrop

theorem runs_dropWhile (text : List Char) : runs gap (text.dropWhile drop) = runs gap text := by
  induction text with
  | nil => rfl
  | cons c text ih =>
    cases hc : drop c with
    | true => rw [List.dropWhile_cons_of_pos hc, ih, runs_cons_gap (hdrop c hc)]
    | false => rw [List.dropWhile_cons_of_neg (by simp [hc])]

theorem runs_rdropWhile (text : List Char) : runs gap (text.rdropWhile drop) = runs gap text := by
  induction text using List.reverseRecOn with
  | nil => rfl
  | append_singleton text c ih =>
    cases hc : drop c with
    | true => rw [List.rdropWhile_concat_pos _ _ _ hc, ih, runs_concat_gap (hdrop c hc)]
    | false => rw [List.rdropWhile_concat_neg _ _ _ (by simp [hc])]

end Runs
end Text

namespace Style.Selector

open Analysis.Style (isGap)
open Text (isBlank runsFrom runsFrom_gap runsFrom_other closeRun)

theorem isGap_of_isBlank {c : Char} (h : isBlank c = true) : isGap c = true := by
  rw [isGap, h, Bool.true_or]

theorem isGap_of_isCombinator {c : Char} (h : isCombinator c = true) : isGap c = true := by
  rw [isGap, h, Bool.or_true]

theorem isGap_eq_false_iff {c : Char} : isGap c = false ↔ isBlank c = false ∧ isCombinator c = false := by
  rw [isGap, Bool.or_eq_false_iff]

theorem parts_trim (text : List Char) : parts (Text.trim text) = parts text := by
  have hend : parts (Text.trim text) = parts (Text.trimStart text) :=
    Text.runs_rdropWhile (fun _ => isGap_of_isBlank) (Text.trimStart text)
  exact hend.trans (Text.runs_dropWhile (fun _ => isGap_of_isBlank) text)

/-! ## The parts of a spelled selector -/

/-- The runs of a text behind a run under way, which pending blanks have ended. -/
def runsBehind (pending : Bool) (run text : List Char) : List (List Char) :=
  if pending then closeRun run ++ runsFrom isGap [] text else runsFrom isGap run text

theorem runsBehind_gap {c : Char} (h : isGap c = true) (pending : Bool) (run text : List Char) :
    runsBehind pending run (c :: text) = closeRun run ++ runsFrom isGap [] text := by
  unfold runsBehind
  cases pending with
  | true => rw [if_pos rfl, runsFrom_gap h]; rfl
  | false => rw [if_neg Bool.false_ne_true, runsFrom_gap h]

/-- Reading the runs of a spelled text is reading those of the text. While blanks are pending the run that
they have ended is still open in the spelled text; at the start and behind a combinator none is open. -/
theorem runsFrom_normalizeFrom : ∀ (text : List Char) (quote : Option Char) (pending : Bool)
    (last : Option Char) (run : List Char), (quote.isSome = true → pending = false) →
    (last.all isCombinator = true → run = []) →
    runsFrom isGap run (normalizeFrom quote pending last text) = runsBehind pending run text
  | [], quote, pending, last, run, _, _ => by
    have hend : normalizeFrom quote pending last [] = [] := by cases quote <;> rfl
    rw [hend]
    cases pending with
    | true => exact (List.append_nil _).symm
    | false => rfl
  | c :: text, some q, pending, last, run, hquote, hrun => by
    obtain rfl : pending = false := hquote rfl
    rw [normalizeFrom_quoted]
    cases hgap : isGap c with
    | true =>
      rw [runsFrom_gap hgap, runsBehind_gap hgap, runsFrom_normalizeFrom text _ false (some c) []
        (fun _ => rfl) (fun _ => rfl)]
      rfl
    | false =>
      have hother := (isGap_eq_false_iff.1 hgap).2
      rw [runsFrom_other hgap, runsFrom_normalizeFrom text _ false (some c) (c :: run) (fun _ => rfl)
        (fun h => absurd h (by simp [hother]))]
      exact (runsFrom_other hgap run text).symm
  | c :: text, none, pending, last, run, hquote, hrun => by
    cases hblank : isBlank c with
    | true =>
      rw [normalizeFrom_blank pending last text hblank, runsBehind_gap (isGap_of_isBlank hblank),
        runsFrom_normalizeFrom text none true last run (by simp) hrun]
      rfl
    | false =>
      cases hcombinator : isCombinator c with
      | true =>
        have hgap := isGap_of_isCombinator hcombinator
        rw [normalizeFrom_combinator pending last text hcombinator, runsFrom_gap hgap, runsBehind_gap hgap,
          runsFrom_normalizeFrom text none false (some c) [] (by simp) (fun _ => rfl)]
        rfl
      | false =>
        have hgap := isGap_eq_false_iff.2 ⟨hblank, hcombinator⟩
        -- whatever run the character joins, the rest is read on behind it
        have hrest : ∀ run, runsFrom isGap run
            (c :: normalizeFrom (if isQuote c then some c else none) false (some c) text) =
              runsFrom isGap run (c :: text) := by
          intro run
          rw [runsFrom_other hgap, runsFrom_other hgap, runsFrom_normalizeFrom text _ false (some c)
            (c :: run) (fun _ => rfl) (fun h => absurd h (by simp [hcombinator]))]
          rfl
        rw [normalizeFrom_plain pending last text hblank hcombinator]
        cases hpart : startsPart pending last with
        | true =>
          obtain ⟨rfl, -⟩ := Bool.and_eq_true_iff.1 hpart
          rw [if_pos rfl, List.singleton_append, runsFrom_gap (by decide : isGap ' ' = true), hrest]
          rfl
        | false =>
          rw [if_neg Bool.false_ne_true, List.nil_append, hrest]
          cases pending with
          | false => rfl
          | true =>
            have hnone : run = [] := by
              refine hrun ?_
              cases last with
              | none => rfl
              | some d => simpa [startsPart] using hpart
            rw [hnone]
            rfl

/-- A selector and its spelling have the same parts. -/
theorem parts_normalize (text : List Char) : parts (normalize text) = parts text :=
  (runsFrom_normalizeFrom (Text.trim text) none false none [] (by simp) (fun _ => rfl)).trans
    (parts_trim text)

/-! ## Selectors that are one part -/

theorem normalizeFrom_gapless : ∀ (text : List Char) (quote last : Option Char),
    (∀ c ∈ text, isGap c = false) → normalizeFrom quote false last text = text
  | [], none, _, _ | [], some _, _, _ => rfl
  | c :: text, some q, last, h => by
    rw [normalizeFrom_quoted, normalizeFrom_gapless text _ _ fun d hd => h d (List.mem_cons_of_mem _ hd)]
  | c :: text, none, last, h => by
    obtain ⟨hblank, hcombinator⟩ := isGap_eq_false_iff.1 (h c List.mem_cons_self)
    rw [normalizeFrom_plain false last text hblank hcombinator,
      normalizeFrom_gapless text _ _ fun d hd => h d (List.mem_cons_of_mem _ hd)]
    rfl

/-- Behind a character that is no combinator, blanks show as a gap unless nothing follows them. So where no
gap is written the text was without one. -/
theorem eq_of_normalizeFrom_gapless : ∀ (text : List Char) (quote : Option Char) (pending : Bool)
    (d : Char), isCombinator d = false → (quote.isSome = true → pending = false) →
    (∀ c ∈ text.getLast?, isBlank c = false) →
    (∀ c ∈ normalizeFrom quote pending (some d) text, isGap c = false) →
    if pending then text = [] else normalizeFrom quote pending (some d) text = text
  | [], quote, pending, d, _, _, _, _ => by
    cases pending with
    | true => rfl
    | false => cases quote <;> rfl
  | c :: text, quote, pending, d, hd, hquote, hlast, hgapless => by
    have hlast' : ∀ e ∈ text.getLast?, isBlank e = false := by
      intro e he
      refine hlast e ?_
      rw [List.getLast?_cons, Option.mem_def.1 he]
      rfl
    -- a character that is written is no gap, and what follows it is the rest of the text
    have hwritten : ∀ opened : Option Char,
        (∀ e ∈ c :: normalizeFrom opened false (some c) text, isGap e = false) →
          c :: normalizeFrom opened false (some c) text = c :: text := by
      intro opened hrest
      have hc := (isGap_eq_false_iff.1 (hrest c List.mem_cons_self)).2
      exact congrArg (c :: ·) (eq_of_normalizeFrom_gapless text opened false c hc (fun _ => rfl) hlast'
        fun e he => hrest e (List.mem_cons_of_mem _ he))
    cases quote with
    | some q =>
      obtain rfl : pending = false := hquote rfl
      rw [normalizeFrom_quoted] at hgapless ⊢
      exact hwritten _ hgapless
    | none =>
      cases hblank : isBlank c with
      | true =>
        -- nothing can follow the blanks, so the text ends with one
        rw [normalizeFrom_blank pending (some d) text hblank] at hgapless
        obtain rfl : text = [] := eq_of_normalizeFrom_gapless text none true d hd (by simp) hlast' hgapless
        rw [hlast c rfl] at hblank
        cases hblank
      | false =>
        cases hcombinator : isCombinator c with
        | true =>
          rw [normalizeFrom_combinator pending (some d) text hcombinator] at hgapless
          have hc := hgapless c List.mem_cons_self
          rw [isGap_of_isCombinator hcombinator] at hc
          cases hc
        | false =>
          rw [normalizeFrom_plain pending (some d) text hblank hcombinator] at hgapless ⊢
          cases pending with
          | true =>
            have hspace := hgapless ' ' (by simp [startsPart, hd])
            cases hspace
          | false => exact hwritten _ hgapless

/-- A spelling without gaps is that of a text without gaps. -/
theorem normalize_eq_iff {text part : List Char} (hpart : ∀ c ∈ part, isGap c = false) :
    normalize text = part ↔ Text.trim text = part := by
  have htrimmed := Text.trimmed_trim text
  rw [normalize]
  generalize Text.trim text = text at htrimmed
  constructor
  · rintro rfl
    symm
    cases text with
    | nil => rfl
    | cons c text =>
      have hblank := htrimmed.head c rfl
      cases hcombinator : isCombinator c with
      | true =>
        rw [normalizeFrom_combinator false none text hcombinator] at hpart
        have hc := hpart c List.mem_cons_self
        rw [isGap_of_isCombinator hcombinator] at hc
        cases hc
      | false =>
        rw [normalizeFrom_plain false none text hblank hcombinator] at hpart ⊢
        have hlast : ∀ d ∈ text.getLast?, isBlank d = false := by
          intro d hd
          refine htrimmed.last d ?_
          rw [List.getLast?_cons, Option.mem_def.1 hd]
          rfl
        exact congrArg (c :: ·) (eq_of_normalizeFrom_gapless text _ false c hcombinator (fun _ => rfl) hlast
          fun d hd => hpart d (List.mem_cons_of_mem _ hd))
  · rintro rfl
    exact normalizeFrom_gapless text none none hpart

/-! ## Selectors that act outside their module -/

theorem mem_documentSelectors_normalize (text : List Char) :
    String.ofList (normalize text) ∈ documentSelectors ↔
      String.ofList (Text.trim text) ∈ documentSelectors := by
  have hgapless : ∀ selector ∈ documentSelectors, ∀ c ∈ selector.toList, isGap c = false := by decide
  have hiff : ∀ selector ∈ documentSelectors,
      String.ofList (normalize text) = selector ↔ String.ofList (Text.trim text) = selector := by
    intro selector hselector
    rw [← String.toList_inj, ← String.toList_inj, String.toList_ofList, String.toList_ofList]
    exact normalize_eq_iff (hgapless selector hselector)
  exact ⟨fun h => (hiff _ h).1 rfl ▸ h, fun h => (hiff _ h).2 rfl ▸ h⟩

theorem isGlobal_normalize (exclude : Bool) (text : List Char) :
    isGlobal exclude (String.ofList (normalize text)) = isGlobal exclude (String.ofList text) := by
  have hdocument : documentSelectors.contains (String.ofList (normalize text)) =
      documentSelectors.contains (String.ofList (Text.trim text)) := by
    rw [Bool.eq_iff_iff, List.contains_iff_mem, List.contains_iff_mem]
    exact mem_documentSelectors_normalize text
  have hancestor : hasClassAncestor (normalize text) = hasClassAncestor (Text.trim text) := by
    rw [hasClassAncestor, hasClassAncestor, parts_normalize, parts_trim]
  simp only [isGlobal, String.toList_ofList, Text.trim_eq_self (trimmed_normalize text), hdocument, hancestor]

/-- Spelling a selector once more changes nothing, its spelling has the parts of the selector, and the two
act outside their module alike under both policies. -/
theorem spelling_keeps_selector (text : List Char) :
    normalize (normalize text) = normalize text ∧ parts (normalize text) = parts text ∧
      ∀ exclude, anyGlobal exclude [String.ofList (normalize text)] =
        anyGlobal exclude [String.ofList text] := by
  refine ⟨normalize_normalize text, parts_normalize text, fun exclude => ?_⟩
  rw [anyGlobal, anyGlobal, List.any_cons, List.any_cons, isGlobal_normalize]

example : normalize "  > .a   [t=\"x  > y \"] +  b > ".toList = ">.a [t=\"x  > y \"]+b>".toList := by
  decide +kernel

end Style.Selector
end AssetAudit
