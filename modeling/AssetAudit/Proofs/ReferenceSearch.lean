import AssetAudit.Dependency.Reference
import AssetAudit.Proofs.BlankText
import AssetAudit.Proofs.TextSearch
import Mathlib.Data.List.Infix
import Mathlib.Data.List.Sort

/-!
# Searching for references

References are looked for at every place of a text that a find before has not passed over. Where no find
passes over another, the search is the one at all the places (`findings_eq`), and then it is the one at
any list of places, in their order, that misses none (`filterMap_tails_eq`). A reference is found only
where its keyword is called, with a blank behind it (`Calls`).
-/
namespace AssetAudit.Dependency

section Findings

variable {α : Type} {at? : List Char → Option (α × List Char)}

/-- Whether no find in a text passes over a place where something else would be found. -/
def Separate (at? : List Char → Option (α × List Char)) (text : List Char) : Prop :=
  ∀ place, place <:+ text → ∀ found rest, at? place = some (found, rest) →
    ∃ c front, place = c :: (front ++ rest) ∧ ∀ part, part <:+ front → part ≠ [] →
      at? (part ++ rest) = none

theorem Separate.suffix {text part : List Char} (h : Separate at? text) (hpart : part <:+ text) :
    Separate at? part :=
  fun place hplace => h place (hplace.trans hpart)

/-- A stretch of a text at which there is nothing leaves all to the places behind it. -/
theorem filterMap_tails_append {β : Type} {f : List Char → Option β} {rest : List Char} :
    ∀ {front : List Char}, (∀ part, part <:+ front → part ≠ [] → f (part ++ rest) = none) →
      (front ++ rest).tails.filterMap f = rest.tails.filterMap f
  | [], _ => rfl
  | c :: front, h => by
    have hnone : f (c :: (front ++ rest)) = none := h _ List.suffix_rfl (List.cons_ne_nil _ _)
    rw [List.cons_append, List.tails_cons, List.filterMap_cons_none hnone]
    exact filterMap_tails_append fun part hpart => h part (hpart.trans (List.suffix_cons _ _))

theorem findings_eq (hnil : at? [] = none) : ∀ {n : Nat} {text : List Char}, text.length ≤ n →
    Separate at? text →
    findings at? n text = text.tails.filterMap fun place => (at? place).map (·.1)
  | n, [], _, _ => by
    rw [List.tails, List.filterMap_cons_none (by rw [hnil]; rfl), List.filterMap_nil]
    cases n <;> rfl
  | n + 1, c :: text, hlength, h => by
    have hlength : text.length ≤ n := Nat.le_of_succ_le_succ hlength
    rw [findings]
    split
    · rename_i found rest hfound
      obtain ⟨d, front, hplace, hquiet⟩ := h _ List.suffix_rfl found rest hfound
      obtain ⟨-, htext⟩ := List.cons.inj hplace
      have hrest : rest <:+ text := ⟨front, htext.symm⟩
      rw [List.tails_cons, List.filterMap_cons_some (b := found) (by rw [hfound]; rfl),
        findings_eq hnil (Nat.le_trans hrest.length_le hlength)
          (h.suffix (hrest.trans (List.suffix_cons c text))), htext, filterMap_tails_append]
      intro part hpart hne
      rw [hquiet part hpart hne]
      rfl
    · rename_i hnone
      rw [List.tails_cons, List.filterMap_cons_none (by rw [hnone]; rfl)]
      exact findings_eq hnil hlength (h.suffix (List.suffix_cons c text))

end Findings

theorem pairwise_length_tails : ∀ text : List Char,
    text.tails.Pairwise fun place later => later.length < place.length
  | [] => List.pairwise_singleton _ _
  | c :: text => by
    rw [List.tails_cons, List.pairwise_cons]
    refine ⟨?_, pairwise_length_tails text⟩
    intro place hplace
    exact Nat.lt_succ_of_le ((List.mem_tails place text).1 hplace).length_le

/-- What is found at the places of a text is found at those of any list that has them in order and
misses none where something is found. -/
theorem filterMap_tails_eq {β : Type} {f : List Char → Option β} {text : List Char}
    {places : List (List Char)}
    (hsorted : places.Pairwise fun place later => later.length < place.length)
    (hplaces : ∀ place ∈ places, place <:+ text)
    (hall : ∀ place, place <:+ text → f place ≠ none → place ∈ places) :
    text.tails.filterMap f = places.filterMap f := by
  have hsame : text.tails.filter (fun place => (f place).isSome) =
      places.filter fun place => (f place).isSome := by
    have : Std.Irrefl fun place later : List Char => later.length < place.length :=
      ⟨fun place => Nat.lt_irrefl _⟩
    have : Std.Asymm fun place later : List Char => later.length < place.length :=
      ⟨fun place later => Nat.lt_asymm⟩
    refine List.Pairwise.eq_of_mem_iff ((pairwise_length_tails text).filter _) (hsorted.filter _) ?_
    intro place
    rw [List.mem_filter, List.mem_filter, List.mem_tails, Option.isSome_iff_ne_none]
    constructor
    · rintro ⟨hplace, hfound⟩
      exact ⟨hall place hplace hfound, hfound⟩
    · rintro ⟨hplace, hfound⟩
      exact ⟨hplaces place hplace, hfound⟩
  have hfilter : ∀ l : List (List Char),
      (l.filter fun place => (f place).isSome).filterMap f = l.filterMap f := by
    intro l
    rw [List.filterMap_filter]
    congr 1
    funext place
    cases hplace : f place <;> simp
  rw [← hfilter, hsame, hfilter]

/-! ## Keywords -/

/-- Whether a text starts with a keyword and a blank. -/
def Calls (word text : List Char) : Prop :=
  ∃ c rest, text = word ++ c :: rest ∧ Text.isBlank c = true

theorem calls_iff {word text : List Char} :
    Calls word text ↔ ((Text.after? word text).bind List.head?).any Text.isBlank = true := by
  constructor
  · rintro ⟨c, rest, htext, hc⟩
    rw [Text.after?_eq_some_iff.2 htext]
    exact hc
  · intro h
    cases hafter : Text.after? word text with
    | none =>
      rw [hafter] at h
      cases h
    | some rest =>
      rw [hafter] at h
      cases rest with
      | nil => cases h
      | cons c rest => exact ⟨c, rest, Text.after?_eq_some_iff.1 hafter, h⟩

instance (word text : List Char) : Decidable (Calls word text) := decidable_of_iff _ calls_iff.symm

/-- A keyword is called inside a part of a text if it is called there and the part ends before a character
that is neither in the keyword nor a blank. -/
theorem Calls.of_append {word part back : List Char} {d : Char} (hword : d ∉ word)
    (hblank : Text.isBlank d = false) (h : Calls word (part ++ d :: back)) : Calls word part := by
  obtain ⟨c, rest, htext, hc⟩ := h
  have hne : c ≠ d := by
    rintro rfl
    rw [hblank] at hc
    cases hc
  rcases List.append_eq_append_iff.1 htext with ⟨extra, rfl, hback⟩ | ⟨extra, rfl, hrest⟩
  · cases extra with
    | nil => exact absurd (List.cons.inj hback).1.symm hne
    | cons x extra =>
      rw [(List.cons.inj hback).1] at hword
      exact absurd (List.mem_append_right _ List.mem_cons_self) hword
  · cases extra with
    | nil => exact absurd (List.cons.inj hrest).1 hne
    | cons x extra =>
      rw [← (List.cons.inj hrest).1]
      exact ⟨c, extra, rfl, hc⟩

/-- A keyword is not called in a stretch of a text without its first character. -/
theorem not_calls_part {a : Char} {letters front part : List Char} (hfront : a ∉ front)
    (hpart : part <:+ front) (hne : part ≠ []) (back : List Char) :
    ¬ Calls (a :: letters) (part ++ back) := by
  rintro ⟨c, rest, htext, -⟩
  obtain ⟨x, part, rfl⟩ := List.exists_cons_of_ne_nil hne
  obtain rfl : x = a := (List.cons.inj htext).1
  exact hfront (hpart.subset List.mem_cons_self)

/-- Whether a keyword is called nowhere between the first character of a place and the text that is left
behind it. -/
def CallsOnce (word place rest : List Char) : Prop :=
  ∃ c front, place = c :: (front ++ rest) ∧ ∀ part, part <:+ front → part ≠ [] → ¬ Calls word (part ++ rest)

theorem separate_of_callsOnce {α : Type} {at? : List Char → Option (α × List Char)} {word text : List Char}
    (hcalls : ∀ {place : List Char} {found : α × List Char}, at? place = some found → Calls word place)
    (honce : ∀ place, place <:+ text → ∀ found rest, at? place = some (found, rest) →
      CallsOnce word place rest) : Separate at? text := by
  intro place hplace found rest hfound
  obtain ⟨c, front, hfront, hquiet⟩ := honce place hplace found rest hfound
  refine ⟨c, front, hfront, fun part hpart hne => ?_⟩
  rw [Option.eq_none_iff_forall_ne_some]
  exact fun _ hother => hquiet part hpart hne (hcalls hother)

theorem calls_of_bind {β : Type} {word text : List Char} {k : List Char → Option β} {found : β}
    (h : ((Text.after? word text).bind fun rest => (afterBlanks? rest).bind k) = some found) :
    Calls word text := by
  obtain ⟨rest, hrest, h⟩ := Option.bind_eq_some_iff.1 h
  obtain ⟨after, hafter, -⟩ := Option.bind_eq_some_iff.1 h
  rw [Text.after?_eq_some_iff] at hrest
  unfold afterBlanks? at hafter
  split at hafter
  · rename_i c rest
    rw [Option.ite_none_right_eq_some] at hafter
    exact ⟨c, rest, hrest, hafter.1⟩
  · cases hafter

theorem calls_of_importAt? {text : List Char} {found : List Char × List Char}
    (h : importAt? text = some found) : Calls "@import".toList text := calls_of_bind h

theorem calls_of_scriptAt? {text : List Char} {found : List Char × List Char}
    (h : scriptAt? text = some found) : Calls "<script".toList text := calls_of_bind h

theorem calls_of_linkAt? {text : List Char} {found : Option (List Char) × List Char}
    (h : linkAt? text = some found) : Calls "<link".toList text := calls_of_bind h

theorem afterBlanks?_append {gap : List Char} (hgap : Text.Blanks gap) (hne : gap ≠ [])
    (text : List Char) : afterBlanks? (gap ++ text) = some (Text.trimStart text) := by
  obtain ⟨c, gap, rfl⟩ := List.exists_cons_of_ne_nil hne
  obtain ⟨hc, hgap⟩ := List.forall_mem_cons.1 hgap
  rw [List.cons_append, afterBlanks?, if_pos (Text.isBlank_of_isAsciiBlank hc),
    Text.trimStart_blanks hgap]

/-! ## Quotation marks -/

theorem isBlank_quote {mark : Char} (h : isQuote mark = true) : Text.isBlank mark = false := by
  rw [isQuote, Bool.or_eq_true, beq_iff_eq, beq_iff_eq] at h
  rcases h with rfl | rfl <;> decide

/-- A text between quotation marks, if it holds none and is not empty. -/
theorem quoted?_eq {mark : Char} {value : List Char} (hmark : isQuote mark = true)
    (hvalue : ∀ c ∈ value, isQuote c = false) (hne : value ≠ []) (tail : List Char) :
    quoted? (mark :: (value ++ mark :: tail)) = some (value, tail) := by
  have hinner : ∀ c ∈ value, (!isQuote c) = true := fun c hc => by rw [hvalue c hc]; rfl
  have hstop : (!isQuote mark) = false := by rw [hmark]; rfl
  have hfull : value.isEmpty = false := List.isEmpty_eq_false_iff.2 hne
  rw [quoted?]
  simp only [Text.takeWhile_front hinner hstop, Text.dropWhile_front hinner hstop, hmark, hfull]
  rfl

end AssetAudit.Dependency
