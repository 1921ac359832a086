import AssetAudit.Proofs.SelectorList
import AssetAudit.Proofs.SelectorParts
import AssetAudit.Proofs.TextSearch

/-!
# Quoted text in selectors

The analysis of styles divides a selector at every blank and combinator, also between quotation marks. What
stands there is read as parts of the selector (`parts_quoted`), so a quoted text can make its selector global
or critical, hide it below a class and add to its complexity (`quoted_text_shows`). `imprint` is what a
quoted text shows of itself in this way, and it is all: two quoted texts can stand for each other in every
selector of every rule exactly if they leave the same imprint (`interchangeable_iff`).
-/
namespace AssetAudit.Analysis.Style

open AssetAudit.Style (Rule Declaration Item Facts ruleFacts)
open AssetAudit.Style.Selector (isQuote isCombinator isGlobal anyGlobal hasClassAncestor documentSelectors
  parts parts_trim isGap_eq_false_iff)

/-- A selector with a quoted text in it. -/
def quoted (q : Char) (before inside after : List Char) : List Char :=
  before ++ q :: (inside ++ q :: after)

/-- Whether a part is a class. -/
def isClass (part : List Char) : Bool := part.head? == some '.'

theorem isClass_nil : isClass [] = false := rfl

theorem hasClassAncestor_eq (text : List Char) :
    hasClassAncestor text = (parts text).dropLast.any isClass := rfl

/-- The parts between the first and the last gap of a text. -/
def innerParts (text : List Char) : List (List Char) := parts (Text.trimMatches (!isGap ·) text)

/-- The parts behind the first gap of a text. -/
def backParts (text : List Char) : List (List Char) := parts (text.dropWhile (!isGap ·))

/-- The parts before the last gap of a text. -/
def frontParts (text : List Char) : List (List Char) := parts (text.rdropWhile (!isGap ·))

/-! ## Quotation marks -/

section

variable {q : Char} (hq : isQuote q = true)
include hq

theorem eq_of_isQuote : q = '"' ∨ q = '\'' := by
  simpa [isQuote] using hq

theorem isGap_quote : isGap q = false := by
  rcases eq_of_isQuote hq with rfl | rfl <;> decide

theorem isBlank_quote : Text.isBlank q = false := (isGap_eq_false_iff.1 (isGap_quote hq)).1

theorem isClass_append_quote (part rest : List Char) : isClass (part ++ q :: rest) = isClass part := by
  cases part with
  | nil =>
    have hdot : q ≠ '.' := by rcases eq_of_isQuote hq with rfl | rfl <;> decide
    simp [isClass, hdot]
  | cons c part => rfl

end

/-! ## The parts of a selector with a quoted text -/

theorem gapless_takeWhile (text : List Char) : ∀ c ∈ text.takeWhile (!isGap ·), isGap c = false :=
  fun _ hc => by simpa using List.mem_takeWhile_imp hc

theorem gapless_rtakeWhile (text : List Char) : ∀ c ∈ text.rtakeWhile (!isGap ·), isGap c = false :=
  fun _ hc => by simpa using List.mem_rtakeWhile_imp hc

theorem dropWhile_gapless {text : List Char} (h : text.any isGap = false) :
    text.dropWhile (!isGap ·) = [] := by
  rw [List.dropWhile_eq_nil_iff]
  intro c hc
  simpa using List.any_eq_false.1 h c hc

theorem innerParts_gapless {text : List Char} (h : text.any isGap = false) : innerParts text = [] := by
  rw [innerParts, Text.trimMatches, dropWhile_gapless h]
  rfl

section

variable {text : List Char} (h : text.any isGap = true) (rest : List Char)
include h

/-- What follows a text with a gap does not reach its first part. -/
theorem takeWhile_append_of_gap : (text ++ rest).takeWhile (!isGap ·) = text.takeWhile (!isGap ·) := by
  obtain ⟨c, hc, hgap⟩ := List.any_eq_true.1 h
  rw [List.takeWhile_append, if_neg]
  intro hlength
  have hall := List.takeWhile_eq_self_iff.1
    ((List.takeWhile_prefix (p := (!isGap ·)) (l := text)).eq_of_length hlength)
  simpa [hgap] using hall c hc

theorem dropWhile_append_of_gap :
    (text ++ rest).dropWhile (!isGap ·) = text.dropWhile (!isGap ·) ++ rest := by
  obtain ⟨c, hc, hgap⟩ := List.any_eq_true.1 h
  rw [List.dropWhile_append, if_neg]
  rw [List.isEmpty_iff, List.dropWhile_eq_nil_iff]
  intro hall
  simpa [hgap] using hall c hc

end

/-- A text behind its first gap is its inner parts and what comes after the last gap. -/
theorem any_isClass_backParts (text : List Char) : (backParts text).any isClass =
    ((innerParts text).any isClass || isClass ((text.dropWhile (!isGap ·)).rtakeWhile (!isGap ·))) := by
  have hsplit := Text.runs_append_last isGap (text.dropWhile (!isGap ·)) []
  rw [List.append_nil, List.append_nil, Text.runs_gapless (gapless_rtakeWhile _)] at hsplit
  have hparts : backParts text = innerParts text ++ _ := hsplit
  rw [hparts, List.any_append]
  congr 1
  split
  · rename_i hnil
    rw [hnil]
    rfl
  · exact Bool.or_false _

/-- The parts that hold a quotation mark, and those of the quoted text between them. -/
def quotedParts (q : Char) (before inside after : List Char) : List (List Char) :=
  let first := before.rtakeWhile (!isGap ·)
  let last := after.takeWhile (!isGap ·)
  if inside.any isGap then
    (first ++ q :: inside.takeWhile (!isGap ·)) :: (innerParts inside ++
      [(inside.dropWhile (!isGap ·)).rtakeWhile (!isGap ·) ++ q :: last])
  else [first ++ q :: (inside ++ q :: last)]

section

variable {q : Char} (hq : isQuote q = true)
include hq

theorem parts_around_quote {a b : List Char} (ha : ∀ c ∈ a, isGap c = false)
    (hb : ∀ c ∈ b, isGap c = false) : parts (a ++ q :: b) = [a ++ q :: b] := by
  have hgapless : ∀ c ∈ a ++ q :: b, isGap c = false := by
    intro c hc
    rcases List.mem_append.1 hc with hc | hc
    · exact ha c hc
    · rcases List.mem_cons.1 hc with rfl | hc
      · exact isGap_quote hq
      · exact hb c hc
  exact (Text.runs_gapless hgapless).trans (if_neg (by simp))

theorem parts_quotedParts (before inside after : List Char) :
    parts (before.rtakeWhile (!isGap ·) ++ q :: (inside ++ q :: after.takeWhile (!isGap ·))) =
      quotedParts q before inside after := by
  have hbefore := gapless_rtakeWhile before
  have hafter := gapless_takeWhile after
  unfold quotedParts
  simp only
  generalize before.rtakeWhile (!isGap ·) = first at hbefore ⊢
  generalize after.takeWhile (!isGap ·) = last at hafter ⊢
  cases hgap : inside.any isGap with
  | false =>
    rw [if_neg Bool.false_ne_true]
    refine parts_around_quote hq hbefore fun c hc => ?_
    rcases List.mem_append.1 hc with hc | hc
    · simpa using List.any_eq_false.1 hgap c hc
    · rcases List.mem_cons.1 hc with rfl | hc
      · exact isGap_quote hq
      · exact hafter c hc
  | true =>
    rw [if_pos rfl]
    -- the text is cut at the first gap that is quoted, and what is behind it at the last one
    have hcut : first ++ q :: (inside ++ q :: last) = (first ++ [q]) ++ (inside ++ q :: last) := by simp
    have hfirst := Text.runs_append_first isGap (first ++ [q]) (inside ++ q :: last)
    rw [takeWhile_append_of_gap hgap, dropWhile_append_of_gap hgap, List.append_assoc,
      List.append_assoc, Text.runs_append_last isGap (inside.dropWhile _) (q :: last)] at hfirst
    have hopen := parts_around_quote hq hbefore (gapless_takeWhile inside)
    have hclose := parts_around_quote hq (gapless_rtakeWhile (inside.dropWhile (!isGap ·))) hafter
    calc parts (first ++ q :: (inside ++ q :: last))
        = parts (first ++ q :: inside.takeWhile (!isGap ·)) ++ (innerParts inside ++
            parts ((inside.dropWhile (!isGap ·)).rtakeWhile (!isGap ·) ++ q :: last)) := hfirst
      _ = _ := by rw [hopen, hclose]; rfl

theorem parts_quoted (before inside after : List Char) : parts (quoted q before inside after) =
    frontParts before ++ (quotedParts q before inside after ++ backParts after) := by
  have hfront := Text.runs_append_last isGap before (q :: (inside ++ q :: after))
  have hback := Text.runs_append_first isGap
    (before.rtakeWhile (!isGap ·) ++ q :: (inside ++ [q])) after
  have hsame : ∀ rest, before.rtakeWhile (!isGap ·) ++ q :: (inside ++ [q]) ++ rest =
      before.rtakeWhile (!isGap ·) ++ q :: (inside ++ q :: rest) := by simp
  rw [hsame, hsame] at hback
  rw [← parts_quotedParts hq]
  exact hfront.trans (congrArg (frontParts before ++ ·) hback)

/-- A test that no part with a quotation mark passes is passed by the parts outside and by the inner parts of
the quoted text. -/
theorem any_parts_quoted {test : List Char → Bool} (htest : ∀ part, q ∈ part → test part = false)
    (before inside after : List Char) : (parts (quoted q before inside after)).any test =
      ((frontParts before).any test || (innerParts inside).any test || (backParts after).any test) := by
  have hmarked : ∀ a b, test (a ++ q :: b) = false := fun a b => htest _ (by simp)
  have hmiddle : (quotedParts q before inside after).any test = (innerParts inside).any test := by
    unfold quotedParts
    cases hgap : inside.any isGap with
    | false => simp [hmarked, innerParts_gapless hgap]
    | true => simp [hmarked]
  rw [parts_quoted hq, List.any_append, List.any_append, hmiddle, Bool.or_assoc]

theorem any_isClass_quotedParts (before inside after : List Char) :
    (quotedParts q before inside after).any isClass =
      (isClass (before.rtakeWhile (!isGap ·)) || (backParts inside).any isClass) := by
  rw [any_isClass_backParts]
  unfold quotedParts
  cases hgap : inside.any isGap with
  | false => simp [isClass_append_quote hq, innerParts_gapless hgap, dropWhile_gapless hgap, isClass_nil]
  | true => simp [isClass_append_quote hq]

/-- The parts above the last one, where the closing quotation mark stands in the last one. -/
theorem any_isClass_dropLast_quotedParts (before inside after : List Char) :
    (quotedParts q before inside after).dropLast.any isClass =
      (inside.any isGap &&
        (isClass (before.rtakeWhile (!isGap ·)) || (innerParts inside).any isClass)) := by
  unfold quotedParts
  cases hgap : inside.any isGap with
  | false => rfl
  | true =>
    rw [if_pos rfl, ← List.cons_append, List.dropLast_concat, List.any_cons, isClass_append_quote hq,
      Bool.true_and]

theorem hasClassAncestor_quoted (before inside after : List Char) :
    hasClassAncestor (quoted q before inside after) =
      ((frontParts before).any isClass ||
        if (backParts after).isEmpty then
          inside.any isGap && (isClass (before.rtakeWhile (!isGap ·)) || (innerParts inside).any isClass)
        else isClass (before.rtakeWhile (!isGap ·)) || (backParts inside).any isClass ||
          (backParts after).dropLast.any isClass) := by
  have hne : (quotedParts q before inside after ++ backParts after).isEmpty = false := by
    unfold quotedParts
    cases inside.any isGap <;> rfl
  have hparts : (parts (quoted q before inside after)).dropLast = frontParts before ++
      (quotedParts q before inside after ++ backParts after).dropLast := by
    rw [parts_quoted hq, List.dropLast_append, if_neg (by simp [hne])]
  rw [hasClassAncestor_eq, hparts, List.any_append, List.dropLast_append]
  cases (backParts after).isEmpty with
  | true => rw [if_pos rfl, if_pos rfl, any_isClass_dropLast_quotedParts hq]
  | false =>
    rw [if_neg Bool.false_ne_true, if_neg Bool.false_ne_true, List.any_append,
      any_isClass_quotedParts hq]

end

/-! ## What is read off a selector -/

/-- Whether one of the parts is one of the names. -/
def named (names : List String) (parts : List (List Char)) : Bool :=
  parts.any fun part => names.contains (String.ofList part)

/-- All that decides what a selector is flagged for. -/
structure Traits where
  /-- It holds the mark of style modules. -/
  marked : Bool
  /-- It acts outside its module. -/
  acts : Bool
  critical : Bool
  global : Bool
  /-- A global part of it counts. -/
  counts : Bool
  deriving DecidableEq

def traits (exclude : Bool) (selector : String) : Traits where
  marked := hasModuleMark selector
  acts := isGlobal exclude selector
  critical := (partsOf selector).any criticalParts.contains
  global := (partsOf selector).any globalParts.contains
  counts := countsAsGlobal exclude selector

section

variable {q : Char} (hq : isQuote q = true)
include hq

theorem not_mem_of_isQuote {name : String} {names : List String} (h : name ∈ names)
    (hnames : names.all (·.toList.all (!isQuote ·)) = true) : q ∉ name.toList := by
  intro hmem
  have hplain := List.all_eq_true.1 (List.all_eq_true.1 hnames name h) q hmem
  rw [hq] at hplain
  cases hplain

theorem contains_quote_eq_false {part : List Char} {names : List String} (h : q ∈ part)
    (hnames : names.all (·.toList.all (!isQuote ·)) = true) :
    names.contains (String.ofList part) = false := by
  rw [← Bool.not_eq_true, List.contains_iff_mem]
  intro hmem
  exact not_mem_of_isQuote hq hmem hnames (by simpa using h)

variable (before inside after : List Char)

theorem named_quoted {names : List String} (hnames : names.all (·.toList.all (!isQuote ·)) = true) :
    (partsOf (String.ofList (quoted q before inside after))).any names.contains =
      (named names (frontParts before) || named names (innerParts inside) ||
        named names (backParts after)) := by
  have htest : ∀ part, q ∈ part → names.contains (String.ofList part) = false :=
    fun part hpart => contains_quote_eq_false hq hpart hnames
  rw [partsOf, String.toList_ofList, List.any_map]
  exact any_parts_quoted hq htest before inside after

theorem any_isClass_quoted :
    ((partsOf (String.ofList (quoted q before inside after))).any fun part =>
      part.toList.head? == some '.') =
        ((frontParts before).any isClass || (isClass (before.rtakeWhile (!isGap ·)) ||
          (backParts inside).any isClass || (backParts after).any isClass)) := by
  have hclass : ((fun part : String => part.toList.head? == some '.') ∘ String.ofList) = isClass := by
    funext part
    simp [isClass]
  rw [partsOf, String.toList_ofList, List.any_map, hclass, parts_quoted hq, List.any_append,
    List.any_append, any_isClass_quotedParts hq]

/-- A selector whose first part has a quotation mark starts with no kind of element. -/
theorem leadingPart_quoted :
    globalParts.contains (leadingPart (String.ofList (quoted q before inside after))) =
      (before.any isGap && globalParts.contains (leadingPart (String.ofList before))) := by
  unfold leadingPart quoted
  rw [String.toList_ofList, String.toList_ofList]
  cases hgap : before.any isGap with
  | true => rw [takeWhile_append_of_gap hgap, Bool.true_and]
  | false =>
    have hall : ∀ c ∈ before, (!isGap c) = true := fun c hc => by simpa using List.any_eq_false.1 hgap c hc
    rw [List.takeWhile_append_of_pos hall, List.takeWhile_cons_of_pos (by simp [isGap_quote hq]),
      Bool.false_and]
    exact contains_quote_eq_false hq (by simp) (by decide)

theorem hasModuleMark_quoted : hasModuleMark (String.ofList (quoted q before inside after)) =
    (Text.contains moduleMark.toList before || (Text.contains moduleMark.toList inside ||
      Text.contains moduleMark.toList after)) := by
  have hmark : q ∉ moduleMark.toList := by rcases eq_of_isQuote hq with rfl | rfl <;> decide
  rw [hasModuleMark, String.toList_ofList, quoted, Text.contains_append_cons hmark,
    Text.contains_append_cons hmark]

theorem quote_mem_trim {text : List Char} (h : q ∈ text) : q ∈ Text.trim text := by
  have hblank := isBlank_quote hq
  have hdrop : ∀ text : List Char, q ∈ text → q ∈ text.dropWhile Text.isBlank := by
    intro text hmem
    rw [← List.takeWhile_append_dropWhile (p := Text.isBlank) (l := text), List.mem_append] at hmem
    rcases hmem with hmem | hmem
    · rw [List.mem_takeWhile_imp hmem] at hblank
      cases hblank
    · exact hmem
  have hstart : q ∈ (Text.trimStart text).reverse := List.mem_reverse.2 (hdrop text h)
  exact List.mem_reverse.2 (hdrop _ hstart)

theorem isGlobal_quoted (exclude : Bool) : isGlobal exclude (String.ofList (quoted q before inside after)) =
    (!exclude || !hasClassAncestor (quoted q before inside after)) := by
  have hmem : q ∈ Text.trim (quoted q before inside after) := quote_mem_trim hq (by simp [quoted])
  have hdocument := contains_quote_eq_false hq hmem (by decide : documentSelectors.all _ = true)
  have hancestor : hasClassAncestor (Text.trim (quoted q before inside after)) =
      hasClassAncestor (quoted q before inside after) := by
    rw [hasClassAncestor, hasClassAncestor, parts_trim]
  simp only [isGlobal, String.toList_ofList, hdocument, hancestor, Bool.false_or]

/-- Quotation marks part the blanks and combinators of a selector, so its complexity is that of its
pieces. -/
theorem complexity_quoted : complexity (String.ofList (quoted q before inside after)) + 2 =
    complexity (String.ofList before) + complexity (String.ofList inside) +
      complexity (String.ofList after) := by
  have hcombinator := (isGap_eq_false_iff.1 (isGap_quote hq)).2
  have hcount : ∀ text : List Char, (q :: text).countP isCombinator = text.countP isCombinator :=
    fun text => List.countP_cons_of_neg (by simp [hcombinator])
  have hruns : ∀ a b : List Char, Text.runs (!Text.isBlank ·) (a ++ q :: b) =
      Text.runs (!Text.isBlank ·) a ++ Text.runs (!Text.isBlank ·) b :=
    Text.runs_append_gap (by simp [isBlank_quote hq])
  unfold complexity quoted
  simp only [String.toList_ofList, hruns, hcount, List.countP_append, List.length_append]
  omega

end

/-! ## What a rule is flagged for -/

/-- The types of issues that flag a selector with the given traits in a global rule. -/
def flaggedTypes (rules : Rules) (declarations : List Declaration) (traits : Traits) : List String :=
  (if rules.criticalGlobalStyle && traits.critical && !(declarations.flatMap criticalNotes).isEmpty then
      ["critical_global_style"]
    else []) ++
    if rules.globalSelector && traits.global && traits.counts then ["global_selector"] else []

theorem selectorFlags_eq (rules : Rules) (declarations : List Declaration) (selector : String) :
    selectorFlags rules declarations selector = (flaggedTypes rules declarations
      (traits rules.excludeGlobalSelectorAfterClass selector)).map (·, selector) := by
  unfold selectorFlags flaggedTypes traits
  rw [List.map_append]
  congr 1
  · split <;> rfl
  · split <;> rfl

theorem mem_contentFlags_iff {rules : Rules} {declarations : List Declaration} {before after : List String}
    {type selector : String} :
    (type, selector) ∈ contentFlags rules (before ++ selector :: after, declarations) ↔
      (anyGlobal rules.excludeGlobalSelectorAfterClass (before ++ after) = true ∨
          (traits rules.excludeGlobalSelectorAfterClass selector).acts = true) ∧
        ((before ++ after).any hasModuleMark = false ∧
          (traits rules.excludeGlobalSelectorAfterClass selector).marked = false) ∧
        type ∈ flaggedTypes rules declarations (traits rules.excludeGlobalSelectorAfterClass selector) := by
  have hperm : (before ++ selector :: after).Perm (selector :: (before ++ after)) := List.perm_middle
  have hflag : (type, selector) ∈ (before ++ selector :: after).flatMap (selectorFlags rules declarations) ↔
      type ∈ flaggedTypes rules declarations
        (traits rules.excludeGlobalSelectorAfterClass selector) := by
    simp only [List.mem_flatMap, selectorFlags_eq, List.mem_map, Prod.mk.injEq]
    constructor
    · rintro ⟨other, -, found, hfound, rfl, rfl⟩
      exact hfound
    · intro hfound
      exact ⟨selector, by simp, type, hfound, rfl, rfl⟩
  have hglobal : anyGlobal rules.excludeGlobalSelectorAfterClass (before ++ selector :: after) =
      ((traits rules.excludeGlobalSelectorAfterClass selector).acts ||
        anyGlobal rules.excludeGlobalSelectorAfterClass (before ++ after)) := by
    unfold anyGlobal
    rw [hperm.any_eq, List.any_cons]
    rfl
  have hmark : (before ++ selector :: after).any hasModuleMark =
      ((traits rules.excludeGlobalSelectorAfterClass selector).marked ||
        (before ++ after).any hasModuleMark) := by
    rw [hperm.any_eq, List.any_cons]
    rfl
  unfold contentFlags
  simp only [hglobal, hmark]
  split
  · rename_i hshown
    rw [hflag]
    simp only [Bool.and_eq_true, Bool.or_eq_true, Bool.not_eq_true', Bool.or_eq_false_iff] at hshown
    obtain ⟨hacts, hmarks⟩ := hshown
    exact ⟨fun hfound => ⟨hacts.symm, hmarks.symm, hfound⟩, fun hall => hall.2.2⟩
  · rename_i hhidden
    simp only [Bool.and_eq_true, Bool.or_eq_true, Bool.not_eq_true', Bool.or_eq_false_iff] at hhidden
    simp only [List.not_mem_nil, false_iff]
    rintro ⟨hacts, hmarks, -⟩
    exact hhidden ⟨hacts.symm, hmarks.symm⟩

/-- The declarations of a block. -/
def declarationsOf (block : List Item) : List Declaration :=
  block.filterMap fun
    | .declaration d => some d
    | _ => none

theorem globalRules_ruleFacts (policy : AssetAudit.Style.Policy) (media : Option String) (span : Span)
    {selectors : List String} (hne : selectors ≠ []) (block : List Item) :
    (ruleFacts policy media span selectors block).globalRules =
      if anyGlobal policy.exclude selectors then
        [⟨selectors, declarationsOf block, Text.locate policy.text span, media⟩]
      else [] := by
  unfold ruleFacts
  rw [if_neg (by simpa using hne)]
  rfl

/-- What is flagged in a file with one rule. -/
theorem flags_ruleFacts {audit : Audit} {file : SurveyedFile} {text : List Char} {media : Option String}
    {span : Span} {selectors : List String} {block : List Item} (hne : selectors ≠ [])
    (hstyle : file.style? =
      some (ruleFacts ⟨text, audit.options.rules.excludeGlobalSelectorAfterClass⟩ media span selectors block)) :
    flagsOf (fileIssues audit file) =
      if (audit.reported? file (Text.locate text span)).isSome then
        contentFlags audit.options.rules (selectors, declarationsOf block)
      else [] := by
  rw [flags_fileIssues, hstyle]
  simp only [globalRules_ruleFacts _ _ _ hne, contentFlags]
  have hmodule : ∀ location, isModuleRule ⟨selectors, declarationsOf block, location, media⟩ =
      selectors.any hasModuleMark := fun _ => rfl
  cases anyGlobal audit.options.rules.excludeGlobalSelectorAfterClass selectors with
  | false => simp
  | true =>
    cases hmark : selectors.any hasModuleMark with
    | true => simp [hmodule, hmark]
    | false => simp [hmodule, hmark, ruleFlags]

theorem reported?_congr {audit : Audit} {file other : SurveyedFile} (h : file.asset = other.asset)
    (place : Location) : audit.reported? file place = audit.reported? other place := by
  unfold Audit.reported? Audit.origin
  rw [h]

/-! ## Quoted texts that can stand for each other -/

/-- What a quoted text shows of itself where no mark of style modules hides it. -/
structure Shown where
  /-- It is divided. -/
  gap : Bool
  critical : Bool
  global : Bool
  /-- A class stands between two of its gaps. -/
  innerClass : Bool
  /-- A class stands behind its first gap. -/
  backClass : Bool
  deriving DecidableEq

/-- What the analysis sees of a quoted text. -/
structure Imprint where
  complexity : Nat
  /-- Nothing is shown by a text with the mark of style modules, which hides its rule. -/
  shown : Option Shown
  deriving DecidableEq

def shown (text : List Char) : Shown where
  gap := text.any isGap
  critical := named criticalParts (innerParts text)
  global := named globalParts (innerParts text)
  innerClass := (innerParts text).any isClass
  backClass := (backParts text).any isClass

def imprint (text : List Char) : Imprint where
  complexity := complexity (String.ofList text)
  shown := if Text.contains moduleMark.toList text then none else some (shown text)

/-- Whether a quoted text can stand for another one: in every selector the complexity stays the same, and
in every rule, of a style sheet or of a page, the selector is flagged or not as before. -/
def Interchangeable (a b : List Char) : Prop :=
  ∀ (q : Char) (before after : List Char), isQuote q = true → (∀ c ∈ before ++ after, isQuote c = false) →
    let selector (inside : List Char) := String.ofList (quoted q before inside after)
    complexity (selector a) = complexity (selector b) ∧
      ∀ (audit : Audit) (text : List Char) (media : Option String) (span : Span)
        (others others' : List String) (block : List Item) (file file' : SurveyedFile) (type : String),
        let facts (inside : List Char) :=
          ruleFacts ⟨text, audit.options.rules.excludeGlobalSelectorAfterClass⟩ media span
            (others ++ selector inside :: others') block
        file.asset = file'.asset → file.style? = some (facts a) → file'.style? = some (facts b) →
          ((type, selector a) ∈ flagsOf (fileIssues audit file) ↔
            (type, selector b) ∈ flagsOf (fileIssues audit file'))

/-- What the text around the quotation marks shows. -/
structure Outside where
  marked : Bool
  critical : Bool
  global : Bool
  /-- The selector starts with a kind of element. -/
  leads : Bool
  /-- A class stands before the part that opens the quotation. -/
  frontClass : Bool
  /-- The part that opens the quotation is a class. -/
  openClass : Bool
  /-- The part that closes the quotation is the last one. -/
  closes : Bool
  /-- A class stands behind the part that closes the quotation. -/
  backClass : Bool
  /-- A class stands there that is not the last part. -/
  backAncestor : Bool
  deriving DecidableEq

def outside (before after : List Char) : Outside where
  marked := Text.contains moduleMark.toList before || Text.contains moduleMark.toList after
  critical := named criticalParts (frontParts before) || named criticalParts (backParts after)
  global := named globalParts (frontParts before) || named globalParts (backParts after)
  leads := before.any isGap && globalParts.contains (leadingPart (String.ofList before))
  frontClass := (frontParts before).any isClass
  openClass := isClass (before.rtakeWhile (!isGap ·))
  closes := (backParts after).isEmpty
  backClass := (backParts after).any isClass
  backAncestor := (backParts after).dropLast.any isClass

/-- The traits of a selector, from what is around the quotation marks and what is between them. -/
def Outside.traits (exclude : Bool) (outside : Outside) (marked : Bool) (shown : Shown) : Traits where
  marked := outside.marked || marked
  acts := !exclude || !(outside.frontClass ||
    if outside.closes then shown.gap && (outside.openClass || shown.innerClass)
    else outside.openClass || shown.backClass || outside.backAncestor)
  critical := outside.critical || shown.critical
  global := outside.global || shown.global
  counts := !exclude || outside.leads ||
    !(outside.frontClass || (outside.openClass || shown.backClass || outside.backClass))

theorem marked_traits (exclude : Bool) (outside : Outside) (shown : Shown) :
    (outside.traits exclude true shown).marked = true :=
  Bool.or_true _

theorem traits_quoted {q : Char} (hq : isQuote q = true) (exclude : Bool) (before inside after : List Char) :
    traits exclude (String.ofList (quoted q before inside after)) =
      (outside before after).traits exclude (Text.contains moduleMark.toList inside) (shown inside) := by
  have hmarked := hasModuleMark_quoted hq before inside after
  rw [← Bool.or_assoc, Bool.or_right_comm] at hmarked
  have hnamed : ∀ names : List String, names.all (·.toList.all (!isQuote ·)) = true →
      (partsOf (String.ofList (quoted q before inside after))).any names.contains =
        (named names (frontParts before) || named names (backParts after) ||
          named names (innerParts inside)) := by
    intro names hnames
    rw [named_quoted hq before inside after hnames, Bool.or_right_comm]
  unfold traits countsAsGlobal
  rw [hmarked, isGlobal_quoted hq, hasClassAncestor_quoted hq, hnamed _ (by decide), hnamed _ (by decide),
    leadingPart_quoted hq, any_isClass_quoted hq]
  rfl

theorem interchangeable_of_imprint {a b : List Char} (h : imprint a = imprint b) : Interchangeable a b := by
  intro q before after hq _ selector
  have hcomplexity : complexity (String.ofList a) = complexity (String.ofList b) :=
    congrArg Imprint.complexity h
  refine ⟨?_, ?_⟩
  · have ha := complexity_quoted hq before a after
    have hb := complexity_quoted hq before b after
    have hsum : complexity (selector a) + 2 = complexity (selector b) + 2 := by
      rw [ha, hb, hcomplexity]
    omega
  · intro audit text media span others others' block file file' type facts hasset hfile hfile'
    rw [flags_ruleFacts (by simp) hfile, flags_ruleFacts (by simp) hfile', reported?_congr hasset]
    split
    · rw [mem_contentFlags_iff, mem_contentFlags_iff, traits_quoted hq, traits_quoted hq]
      have hshown : (if Text.contains moduleMark.toList a then none else some (shown a)) =
          (if Text.contains moduleMark.toList b then none else some (shown b)) := congrArg Imprint.shown h
      -- both are hidden, or nothing that is read off the selectors tells them apart
      cases ha : Text.contains moduleMark.toList a with
      | true =>
        cases hb : Text.contains moduleMark.toList b with
        | true => simp [marked_traits]
        | false => simp [ha, hb] at hshown
      | false =>
        cases hb : Text.contains moduleMark.toList b with
        | true => simp [ha, hb] at hshown
        | false =>
          have hsame : shown a = shown b := by simpa [ha, hb] using hshown
          rw [hsame]
    · simp

/-! ## Selectors that tell quoted texts apart -/

/-- A scan without rules about what to ignore. -/
def plainAudit (exclude : Bool) : Audit :=
  ⟨.atDirectory "/app", "/app", { rules := { excludeGlobalSelectorAfterClass := exclude } },
    .ofEntries "/app" [], []⟩

/-- A style sheet with one rule, which is dangerous if it is critical. -/
def resetSheet (exclude : Bool) (selector : String) : SurveyedFile :=
  ⟨⟨"a.css", "", none⟩, .style (ruleFacts ⟨[], exclude⟩ none ⟨0, 0⟩ ([] ++ selector :: [])
    [.declaration ⟨"margin", "0", false⟩])⟩

/-- Whether a selector of such a sheet is flagged as critical, and whether as global. -/
def flaggedAs (traits : Traits) : Bool × Bool :=
  let seen := traits.acts && !traits.marked
  (seen && traits.critical, seen && (traits.global && traits.counts))

theorem isSome_reported?_resetSheet (exclude : Bool) (selector : String) (place : Location) :
    ((plainAudit exclude).reported? (resetSheet exclude selector) place).isSome = true := by
  have hname : (resetSheet exclude selector).asset.name = "a.css" := rfl
  have hfilter : (plainAudit exclude).filter = .ofEntries "/app" [] := rfl
  refine isSome_reported? rfl ?_ ?_ place
  · rw [hname, hfilter]
    decide +kernel
  · rw [hname, hfilter]
    decide +kernel

theorem mem_flags_resetSheet (exclude : Bool) (type selector : String) :
    (type, selector) ∈ flagsOf (fileIssues (plainAudit exclude) (resetSheet exclude selector)) ↔
      type = "critical_global_style" ∧ (flaggedAs (traits exclude selector)).1 = true ∨
        type = "global_selector" ∧ (flaggedAs (traits exclude selector)).2 = true := by
  have hstyle : (resetSheet exclude selector).style? =
      some (ruleFacts ⟨[], (plainAudit exclude).options.rules.excludeGlobalSelectorAfterClass⟩ none ⟨0, 0⟩
        ([] ++ selector :: []) [.declaration ⟨"margin", "0", false⟩]) := rfl
  have htypes : ∀ found : Traits, flaggedTypes (plainAudit exclude).options.rules
      (declarationsOf [.declaration ⟨"margin", "0", false⟩]) found =
        (if found.critical then ["critical_global_style"] else []) ++
          if found.global && found.counts then ["global_selector"] else [] := by
    intro found
    have hnotes : ((declarationsOf [.declaration ⟨"margin", "0", false⟩]).flatMap criticalNotes).isEmpty =
        false := by decide +kernel
    unfold flaggedTypes
    rw [hnotes, Bool.not_false, Bool.and_true]
    rfl
  have hexclude : (plainAudit exclude).options.rules.excludeGlobalSelectorAfterClass = exclude := rfl
  rw [flags_ruleFacts (by simp) hstyle, if_pos (isSome_reported?_resetSheet _ _ _), mem_contentFlags_iff,
    htypes, hexclude]
  generalize traits exclude selector = found
  simp only [flaggedAs, anyGlobal, List.append_nil, List.any_nil, Bool.false_eq_true, false_or, true_and,
    List.mem_append, List.mem_ite_nil_right, List.mem_singleton, Bool.and_eq_true, Bool.not_eq_true']
  tauto

/-- Texts that can stand for each other are flagged alike in every sheet of this kind. -/
theorem flaggedAs_eq {a b : List Char} (h : Interchangeable a b) (exclude : Bool) (before after : List Char)
    (hplain : ∀ c ∈ before ++ after, isQuote c = false) :
    flaggedAs ((outside before after).traits exclude (Text.contains moduleMark.toList a) (shown a)) =
      flaggedAs ((outside before after).traits exclude (Text.contains moduleMark.toList b) (shown b)) := by
  have hq : isQuote '"' = true := by decide
  have hflags : ∀ type : String,
      (type, String.ofList (quoted '"' before a after)) ∈ flagsOf (fileIssues (plainAudit exclude)
          (resetSheet exclude (String.ofList (quoted '"' before a after)))) ↔
        (type, String.ofList (quoted '"' before b after)) ∈ flagsOf (fileIssues (plainAudit exclude)
          (resetSheet exclude (String.ofList (quoted '"' before b after)))) :=
    fun type => (h '"' before after hq hplain).2 (plainAudit exclude) [] none ⟨0, 0⟩ [] [] _ _ _ type rfl rfl rfl
  rw [← traits_quoted hq, ← traits_quoted hq]
  refine Prod.ext (Bool.eq_iff_iff.2 ?_) (Bool.eq_iff_iff.2 ?_)
  · have hcritical := hflags "critical_global_style"
    rw [mem_flags_resetSheet, mem_flags_resetSheet] at hcritical
    simpa only [true_and, String.reduceEq, false_and, or_false] using hcritical
  · have hglobal := hflags "global_selector"
    rw [mem_flags_resetSheet, mem_flags_resetSheet] at hglobal
    simpa only [true_and, String.reduceEq, false_and, false_or] using hglobal

theorem gap_of_innerClass {text : List Char} (h : (shown text).innerClass = true) :
    (shown text).gap = true := by
  rw [← Bool.not_eq_false]
  intro hgap
  have hclass : (innerParts text).any isClass = true := h
  rw [innerParts_gapless hgap] at hclass
  cases hclass

theorem imprint_of_interchangeable {a b : List Char} (h : Interchangeable a b) : imprint a = imprint b := by
  -- one selector for each thing that a quoted text can show
  have hbelow : outside "p [t=".toList "]".toList =
      ⟨false, false, true, true, false, false, true, false, false⟩ := by decide +kernel
  have halone : outside "[t=".toList "]".toList =
      ⟨false, false, false, false, false, false, true, false, false⟩ := by decide +kernel
  have hopen : outside "p .a[t=".toList "]".toList =
      ⟨false, false, true, true, false, true, true, false, false⟩ := by decide +kernel
  have habove : outside "p [t=".toList "] a".toList =
      ⟨false, false, true, true, false, false, false, false, false⟩ := by decide +kernel
  have hmarked := flaggedAs_eq h false "p [t=".toList "]".toList (by decide)
  have hnamed := flaggedAs_eq h false "[t=".toList "]".toList (by decide)
  have hgap := flaggedAs_eq h true "p .a[t=".toList "]".toList (by decide)
  have hinner := flaggedAs_eq h true "p [t=".toList "]".toList (by decide)
  have hback := flaggedAs_eq h true "p [t=".toList "] a".toList (by decide)
  rw [hbelow] at hmarked hinner
  rw [halone] at hnamed
  rw [hopen] at hgap
  rw [habove] at hback
  simp only [flaggedAs, Outside.traits, Bool.not_false, Bool.not_true, Bool.true_or, Bool.false_or,
    Bool.true_and, Bool.and_true, if_true, Bool.or_false, Bool.false_eq_true, if_false, Prod.mk.injEq]
    at hmarked hnamed hgap hinner hback
  have hcomplexity : complexity (String.ofList a) = complexity (String.ofList b) := by
    have hq : isQuote '"' = true := by decide
    have hsame : complexity (String.ofList (quoted '"' [] a [])) =
        complexity (String.ofList (quoted '"' [] b [])) := (h '"' [] [] hq (by simp)).1
    have ha := complexity_quoted hq [] a []
    have hb := complexity_quoted hq [] b []
    omega
  unfold imprint
  rw [hcomplexity]
  have hmark : Text.contains moduleMark.toList a = Text.contains moduleMark.toList b :=
    Bool.not_inj hmarked.2
  rw [hmark] at hnamed hgap hinner hback ⊢
  generalize Text.contains moduleMark.toList b = marked at hnamed hgap hinner hback ⊢
  cases marked with
  | true => rfl
  | false =>
    simp only [Bool.not_false, Bool.true_and, Bool.and_true] at hnamed hgap hinner hback
    have hgapped : (shown a).gap = (shown b).gap := Bool.not_inj hgap.2
    have hclass : (shown a).innerClass = (shown b).innerClass := by
      have hboth := Bool.not_inj hinner.2
      rw [Bool.eq_iff_iff] at hboth ⊢
      simp only [Bool.and_eq_true] at hboth
      exact ⟨fun hc => (hboth.1 ⟨gap_of_innerClass hc, hc⟩).2,
        fun hc => (hboth.2 ⟨gap_of_innerClass hc, hc⟩).2⟩
    have hshown : shown a = shown b := by
      rw [Shown.mk.injEq]
      exact ⟨hgapped, hnamed.1, hnamed.2, hclass, Bool.not_inj hback.2⟩
    rw [hshown]

/-- Two quoted texts can stand for each other in every selector exactly if they leave the same imprint:
equally many blanks and combinators, and, unless both hide their rule by the mark of style modules, alike
gaps, global and critical parts between gaps, and classes between and behind gaps. -/
theorem interchangeable_iff (a b : List Char) : Interchangeable a b ↔ imprint a = imprint b :=
  ⟨imprint_of_interchangeable, interchangeable_of_imprint⟩

example : imprint "a b".toList = imprint "c\td".toList ∧ imprint "a b".toList ≠ imprint "ab".toList ∧
    imprint "a b c".toList ≠ imprint "a p c".toList := by
  decide +kernel

/-- Words in a quoted text are taken for elements that the selector reaches, a blank in it for a class that
the selector stands below, and its blanks and combinators for those of the selector. -/
theorem quoted_text_shows :
    let scan (code : String) := (Scan.ofAssets (.atDirectory "/app") "/app" {} ""
      ⟨[], [⟨"a.css", code, none⟩], []⟩).toOption.map fun report => flagsOf report.results.styles
    scan "[title=\"x\"] \x7b margin: 0 \x7d" = some [] ∧
      scan "[title=\"x body y\"] \x7b margin: 0 \x7d" =
        some [("critical_global_style", "[title=\"x body y\"]"), ("global_selector", "[title=\"x body y\"]")] ∧
      scan "p .a[title=\"x\"] \x7b margin: 0 \x7d" = some [("global_selector", "p .a[title=\"x\"]")] ∧
      scan "p .a[title=\"x y\"] \x7b margin: 0 \x7d" = some [] ∧
      complexity ".a[title=\"x\"]" = 1 ∧ complexity ".a[title=\"1 2 > 3 + 4\"]" = 8 := by
  refine ⟨?_, ?_, ?_, ?_, ?_, ?_⟩ <;> decide +kernel

end AssetAudit.Analysis.Style
