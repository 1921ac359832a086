import AssetAudit.Proofs.BlankText
import AssetAudit.Style.Selector

/-!
# The spelling of a selector

A text without blanks at its ends is its own trimmed form (`trim_eq_self`). The spelling of a selector is
such a text, because the first and the last character of a trimmed selector are kept, and spelling it once
more changes nothing (`normalize_normalize`).
-/
namespace AssetAudit

namespace Text

/-- Whether a text neither starts nor ends with a blank. -/
structure Trimmed (text : List Char) : Prop where
  head : ∀ c ∈ text.head?, isBlank c = false
  last : ∀ c ∈ text.getLast?, isBlank c = false

theorem dropWhile_eq_self {p : Char → Bool} {text : List Char} (h : ∀ c ∈ text.head?, p c = false) :
    text.dropWhile p = text := by
  cases text with
  | nil => rfl
  | cons c text => exact List.dropWhile_cons_of_neg (by simp [h c rfl])

theorem eq_false_of_head?_dropWhile {p : Char → Bool} {text : List Char} {c : Char}
    (h : c ∈ (text.dropWhile p).head?) : p c = false := by
  have hhead := List.head?_dropWhile_not p text
  rw [Option.mem_def.1 h] at hhead
  simpa using hhead

theorem trim_eq_self {text : List Char} (h : Trimmed text) : trim text = text := by
  have hback : ∀ c ∈ text.reverse.head?, isBlank c = false := by
    rw [List.head?_reverse]
    exact h.last
  rw [trim, trimStart, dropWhile_eq_self h.head, trimEnd, dropWhile_eq_self hback, List.reverse_reverse]

theorem trimmed_trim (text : List Char) : Trimmed (trim text) := by
  refine ⟨?_, ?_⟩
  · -- what is left of the text is a front of it, so it starts as the text without its first blanks does
    have hfront : trim text <+: trimStart text := by
      rw [← List.reverse_suffix, trim, trimEnd, List.reverse_reverse]
      exact List.dropWhile_suffix isBlank
    intro c hc
    obtain ⟨back, hback⟩ := hfront
    have hstart : c ∈ (trimStart text).head? := by
      rw [← hback, List.head?_append, Option.mem_def.1 hc]
      rfl
    exact eq_false_of_head?_dropWhile hstart
  · rw [trim, trimEnd, List.getLast?_reverse]
    exact fun c hc => eq_false_of_head?_dropWhile hc

end Text

namespace Style.Selector

open Text (isBlank Trimmed)

theorem isBlank_eq_false_of_isCombinator {c : Char} (h : isCombinator c = true) : isBlank c = false := by
  simp only [isCombinator, Bool.or_eq_true, beq_iff_eq] at h
  rcases h with (rfl | rfl) | rfl <;> decide

/-! ## One character of a selector -/

section

variable {c : Char} (pending : Bool) (last : Option Char) (text : List Char)

/-- Whether a part starts behind blanks that count. -/
def startsPart : Bool := pending && match last with
  | some d => !isCombinator d
  | none => false

theorem normalizeFrom_quoted (q : Char) : normalizeFrom (some q) pending last (c :: text) =
    c :: normalizeFrom (if c = q then none else some q) pending (some c) text := rfl

theorem normalizeFrom_blank (h : isBlank c = true) :
    normalizeFrom none pending last (c :: text) = normalizeFrom none true last text :=
  if_pos h

theorem normalizeFrom_combinator (h : isCombinator c = true) :
    normalizeFrom none pending last (c :: text) = c :: normalizeFrom none false (some c) text :=
  (if_neg (by simp [isBlank_eq_false_of_isCombinator h])).trans (if_pos h)

theorem normalizeFrom_plain (hblank : isBlank c = false) (hcombinator : isCombinator c = false) :
    normalizeFrom none pending last (c :: text) =
      (if startsPart pending last then [' '] else []) ++
        c :: normalizeFrom (if isQuote c then some c else none) false (some c) text := by
  have hwritten : normalizeFrom none pending last (c :: text) =
      if startsPart pending last then
        ' ' :: c :: normalizeFrom (if isQuote c then some c else none) false (some c) text
      else c :: normalizeFrom (if isQuote c then some c else none) false (some c) text :=
    (if_neg (by simp [hblank])).trans (if_neg (by simp [hcombinator]))
  rw [hwritten]
  split <;> rfl

end

/-! ## Spelling a selector twice -/

/-- A text that has been spelled is spelled as it is, from any state in which no blank is pending. -/
theorem normalizeFrom_normalizeFrom : ∀ (text : List Char) (quote : Option Char) (pending : Bool)
    (last : Option Char), normalizeFrom quote false last (normalizeFrom quote pending last text) =
      normalizeFrom quote pending last text
  | [], none, _, _ | [], some _, _, _ => rfl
  | c :: text, some q, pending, last => by
    rw [normalizeFrom_quoted, normalizeFrom_quoted, normalizeFrom_normalizeFrom text]
  | c :: text, none, pending, last => by
    have ih := normalizeFrom_normalizeFrom text
    cases hblank : isBlank c with
    | true =>
      rw [normalizeFrom_blank pending last text hblank, ih none true last]
    | false =>
      cases hcombinator : isCombinator c with
      | true =>
        rw [normalizeFrom_combinator pending last text hcombinator,
          normalizeFrom_combinator false last _ hcombinator, ih]
      | false =>
        rw [normalizeFrom_plain pending last text hblank hcombinator]
        cases hpart : startsPart pending last with
        | true =>
          -- the space that is written makes a blank pending once more
          obtain ⟨rfl, -⟩ := Bool.and_eq_true_iff.1 hpart
          have hspace : isBlank ' ' = true := by decide
          rw [if_pos rfl, List.singleton_append, normalizeFrom_blank false last _ hspace,
            normalizeFrom_plain true last _ hblank hcombinator, hpart, ih]
          rfl
        | false =>
          rw [if_neg Bool.false_ne_true, List.nil_append,
            normalizeFrom_plain false last _ hblank hcombinator, ih]
          rfl

theorem getLast?_normalizeFrom : ∀ (text : List Char) (quote : Option Char) (pending : Bool)
    (last : Option Char) {d : Char}, text.getLast? = some d → isBlank d = false →
    (normalizeFrom quote pending last text).getLast? = some d
  | c :: text, quote, pending, last, d, hlast, hd => by
    -- a character that is written stands last only if it is the last of the text
    have hwritten : ∀ (quote : Option Char) (pending : Bool),
        (c :: normalizeFrom quote pending (some c) text).getLast? = some d := by
      intro quote pending
      cases text with
      | nil => exact hlast
      | cons b text =>
        rw [List.getLast?_cons_cons] at hlast
        rw [List.getLast?_cons, getLast?_normalizeFrom (b :: text) quote pending (some c) hlast hd]
        rfl
    cases quote with
    | some q => exact hwritten _ _
    | none =>
      cases hblank : isBlank c with
      | true =>
        rw [normalizeFrom_blank pending last text hblank]
        cases text with
        | nil =>
          obtain rfl : c = d := Option.some.inj hlast
          rw [hblank] at hd
          cases hd
        | cons b text =>
          rw [List.getLast?_cons_cons] at hlast
          exact getLast?_normalizeFrom (b :: text) none true last hlast hd
      | false =>
        cases hcombinator : isCombinator c with
        | true =>
          rw [normalizeFrom_combinator pending last text hcombinator]
          exact hwritten _ _
        | false =>
          rw [normalizeFrom_plain pending last text hblank hcombinator, List.getLast?_append,
            hwritten]
          rfl

theorem head?_normalizeFrom {text : List Char} (h : ∀ c ∈ text.head?, isBlank c = false) :
    (normalizeFrom none false none text).head? = text.head? := by
  cases text with
  | nil => rfl
  | cons c text =>
    cases hcombinator : isCombinator c with
    | true => rw [normalizeFrom_combinator false none text hcombinator, List.head?_cons, List.head?_cons]
    | false =>
      rw [normalizeFrom_plain false none text (h c rfl) hcombinator]
      rfl

theorem trimmed_normalize (text : List Char) : Trimmed (normalize text) := by
  have htrimmed := Text.trimmed_trim text
  refine ⟨?_, ?_⟩
  · rw [normalize, head?_normalizeFrom htrimmed.head]
    exact htrimmed.head
  · intro c hc
    cases hlast : (Text.trim text).getLast? with
    | none =>
      rw [normalize, List.getLast?_eq_none_iff.1 hlast] at hc
      cases hc
    | some d =>
      have hd := htrimmed.last d hlast
      rw [normalize, getLast?_normalizeFrom _ none false none hlast hd] at hc
      rw [← Option.some.inj hc]
      exact hd

/-- A selector that has been spelled is its own spelling. -/
theorem normalize_normalize (text : List Char) : normalize (normalize text) = normalize text := by
  have htrim := Text.trim_eq_self (trimmed_normalize text)
  calc normalize (normalize text)
      = normalizeFrom none false none (normalize text) := by rw [normalize, htrim]
    _ = normalize text := normalizeFrom_normalizeFrom _ none false none

end Style.Selector
end AssetAudit
