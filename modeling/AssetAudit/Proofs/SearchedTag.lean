import AssetAudit.Proofs.SpelledTag

/-!
# Searching written tags

A search of a tag asks at every place of its text whether a word is assigned there (`Assigns`). In a
written tag that is so only where a name ends in the word or inside a quoted value (`assigns_name`,
`assigns_given`). So the attribute that the search for a name finds last is the one of that name, if it is
quoted and no other name or value misleads the search (`Exposes`, `lastInTag?_eq`).
-/
namespace AssetAudit.Dependency

open Page (SpelledAttribute Given Spells IsName)
open Text (Blanks suffix_append_cases trimStart_append trimStart_blanks trimStart_cons)

/-! ## Assignments -/

/-- Whether a text starts with a word, blanks and an equals sign. -/
def Assigns (IsWord : List Char → Prop) (text : List Char) : Prop :=
  ∃ word rest, IsWord word ∧ text = word ++ rest ∧ (Text.trimStart rest).head? = some '='

/-- Whether a word is one of letters. -/
def OfLetters (IsWord : List Char → Prop) : Prop :=
  ∀ word, IsWord word → word ≠ [] ∧ ∀ c ∈ word, Text.isWordChar c = true

section Assigns

variable {IsWord : List Char → Prop} (hletters : OfLetters IsWord)

include hletters

/-- A word ends before a character that belongs to no name. -/
theorem Assigns.cases {part back : List Char} {d : Char} (hd : Page.isAttributeChar d = false)
    (h : Assigns IsWord (part ++ d :: back)) :
    ∃ word rest, IsWord word ∧ part = word ++ rest ∧
      (Text.trimStart (rest ++ d :: back)).head? = some '=' := by
  obtain ⟨word, rest, hword, htext, hequals⟩ := h
  rcases List.append_eq_append_iff.1 htext with ⟨extra, hextra, hback⟩ | ⟨extra, rfl, rfl⟩
  · cases extra with
    | nil =>
      rw [List.append_nil] at hextra
      refine ⟨word, [], hword, by rw [List.append_nil, hextra], ?_⟩
      rw [hback]
      exact hequals
    | cons x extra =>
      have hx : x = d := (List.cons.inj hback).1.symm
      have hmem : x ∈ word := by
        rw [hextra]
        exact List.mem_append_right _ List.mem_cons_self
      have hchar := Page.isAttributeChar_of_isWordChar ((hletters word hword).2 x hmem)
      rw [hx, hd] at hchar
      cases hchar
  · exact ⟨word, extra, hword, rfl, hequals⟩

theorem not_assigns_cons {d : Char} (hd : Page.isAttributeChar d = false) (back : List Char) :
    ¬ Assigns IsWord (d :: back) := by
  intro h
  obtain ⟨word, rest, hword, hpart, -⟩ :=
    Assigns.cases hletters hd (show Assigns IsWord ([] ++ d :: back) from h)
  exact (hletters word hword).1 (List.append_eq_nil_iff.1 hpart.symm).1

/-- Inside a name a word is assigned only where it ends the name. -/
theorem assigns_name {name part back : List Char} {d : Char} (hname : IsName name)
    (hpart : part <:+ name) (hd : Page.isAttributeChar d = false)
    (h : Assigns IsWord (part ++ d :: back)) :
    IsWord part ∧ (Text.trimStart (d :: back)).head? = some '=' := by
  obtain ⟨word, rest, hword, rfl, hequals⟩ := Assigns.cases hletters hd h
  cases rest with
  | nil => exact ⟨by rwa [List.append_nil], hequals⟩
  | cons x rest =>
    have hx : x ∈ name := hpart.subset (List.mem_append_right _ List.mem_cons_self)
    rw [List.cons_append, trimStart_cons (hname.chars x hx).2, List.head?_cons,
      Option.some.injEq] at hequals
    have hchar := (hname.chars x hx).1
    rw [hequals] at hchar
    cases hchar

theorem not_assigns_blanks {gap part : List Char} (hgap : Blanks gap) (hpart : part <:+ gap)
    (hne : part ≠ []) (back : List Char) : ¬ Assigns IsWord (part ++ back) := by
  obtain ⟨d, more, hmore, hd, -⟩ := Page.breaks_blanks hgap hpart hne back
  rw [hmore]
  exact not_assigns_cons hletters hd more

/-- Inside a value without quotation marks no word is assigned. -/
theorem not_assigns_value {value part tail rest : List Char} {attributes : List SpelledAttribute}
    (hvalue : ∀ c ∈ value, Page.isValueChar c = true) (hpart : part <:+ value)
    (htail : Spells tail attributes rest) : ¬ Assigns IsWord (part ++ tail) := by
  intro h
  obtain ⟨gap, c, behind, htext, hgap, hc, hne, -⟩ := htail.exists_gap
  obtain ⟨d, back, hback, hd⟩ := htail.exists_head
  rw [hback] at h
  obtain ⟨word, extra, hword, rfl, hequals⟩ := Assigns.cases hletters hd h
  rw [← hback, htext] at hequals
  rcases trimStart_append extra (gap ++ c :: behind) with ⟨-, htrim⟩ | ⟨hextra, htrim⟩
  · rw [htrim, trimStart_blanks hgap, trimStart_cons hc, List.head?_cons, Option.some.injEq] at hequals
    exact hne hequals
  · obtain ⟨x, more, hmore⟩ := List.exists_cons_of_ne_nil hextra
    rw [htrim, hmore, List.cons_append, List.head?_cons, Option.some.injEq] at hequals
    have hx : x ∈ extra := by
      refine (List.dropWhile_suffix Text.isBlank).subset ?_
      rw [← Text.trimStart, hmore]
      exact List.mem_cons_self
    have hchar := hvalue x (hpart.subset (List.mem_append_right _ hx))
    rw [hequals] at hchar
    cases hchar

/-- Inside a quoted value a word is assigned before the closing mark. -/
theorem Assigns.before_mark {part tail : List Char} {mark : Char} (hmark : isQuote mark = true)
    (h : Assigns IsWord (part ++ mark :: tail)) :
    ∃ word extra behind, IsWord word ∧ part = word ++ extra ∧ Text.trimStart extra = '=' :: behind := by
  obtain ⟨word, extra, hword, rfl, hequals⟩ :=
    Assigns.cases hletters (Page.isAttributeChar_quote hmark) h
  rcases trimStart_append extra (mark :: tail) with ⟨-, htrim⟩ | ⟨hextra, htrim⟩
  · rw [htrim, trimStart_cons (isBlank_quote hmark), List.head?_cons, Option.some.injEq] at hequals
    rw [hequals] at hmark
    cases hmark
  · obtain ⟨x, behind, hbehind⟩ := List.exists_cons_of_ne_nil hextra
    rw [htrim, hbehind, List.cons_append, List.head?_cons, Option.some.injEq] at hequals
    exact ⟨word, extra, behind, hword, rfl, by rw [hbehind, hequals]⟩

/-- Behind the name of an attribute a word is assigned only inside a quoted value. -/
theorem assigns_given {front value tail rest part : List Char} {quoted : Bool}
    {attributes : List SpelledAttribute}
    (hgiven : Given tail (front ++ tail) value quoted) (htail : Spells tail attributes rest)
    (hpart : part <:+ front) (hne : part ≠ []) (h : Assigns IsWord (part ++ tail)) :
    quoted = true ∧ ∃ inner mark, isQuote mark = true ∧ inner <:+ value ∧ part = inner ++ [mark] := by
  rcases hgiven.suffix_cases hpart hne with ⟨d, back, rfl, hd, -⟩ | ⟨hvalue, hchars⟩ | hquoted
  · exact absurd h (not_assigns_cons hletters hd _)
  · exact absurd h (not_assigns_value hletters hchars hvalue htail)
  · exact hquoted

end Assigns

/-! ## The last place in a tag -/

section LastInTag

variable {α : Type} {at? : List Char → Option α}

theorem lastInTag?_cons {c : Char} (hc : c ≠ '>') (rest : List Char) :
    lastInTag? at? (c :: rest) = (lastInTag? at? rest).or (at? (c :: rest)) := by
  rw [lastInTag?]
  · cases lastInTag? at? rest <;> rfl
  · exact hc

/-- A stretch of a tag where nothing is found leaves the search to the rest. -/
theorem lastInTag?_append {tail : List Char} : ∀ {front : List Char}, '>' ∉ front →
    (∀ part, part <:+ front → part ≠ [] → at? (part ++ tail) = none) →
    lastInTag? at? (front ++ tail) = lastInTag? at? tail
  | [], _, _ => rfl
  | c :: front, hclose, hquiet => by
    rw [List.mem_cons, not_or] at hclose
    have hnone : at? (c :: (front ++ tail)) = none := hquiet _ List.suffix_rfl (List.cons_ne_nil _ _)
    rw [List.cons_append, lastInTag?_cons (Ne.symm hclose.1), hnone, Option.or_none]
    exact lastInTag?_append hclose.2 fun part hpart => hquiet part (hpart.trans (List.suffix_cons c front))

end LastInTag

theorem attributeAt?_eq_some_iff {word text : List Char} {found : List Char × List Char} :
    attributeAt? word text = some found ↔ ∃ rest after, text = word ++ rest ∧
      Text.trimStart rest = '=' :: after ∧ quoted? (Text.trimStart after) = some found := by
  unfold attributeAt?
  constructor
  · intro h
    split at h
    · rename_i after hafter
      obtain ⟨rest, hrest, htrim⟩ := Option.map_eq_some_iff.1 hafter
      exact ⟨rest, after, Text.after?_eq_some_iff.1 hrest, htrim, h⟩
    · cases h
  · rintro ⟨rest, after, htext, htrim, h⟩
    rw [Text.after?_eq_some_iff.2 htext, Option.map_some, htrim]
    exact h

theorem attributeAt?_eq_none {word text : List Char} (h : ¬ Assigns (· = word) text) :
    attributeAt? word text = none := by
  rw [Option.eq_none_iff_forall_ne_some]
  intro found hfound
  obtain ⟨rest, after, htext, htrim, -⟩ := attributeAt?_eq_some_iff.1 hfound
  exact h ⟨word, rest, rfl, htext, by rw [htrim]; rfl⟩

theorem attributeAt?_given {given value tail : List Char} (hgiven : Given tail given value true)
    (hne : value ≠ []) (hvalue : ∀ c ∈ value, isQuote c = false) (word : List Char) :
    attributeAt? word (word ++ given) = some (value, tail) := by
  cases hgiven with
  | @quoted before after _ mark hbefore hafter hmark =>
    refine attributeAt?_eq_some_iff.2 ⟨_, after ++ mark :: (value ++ mark :: tail), rfl, ?_, ?_⟩
    · rw [trimStart_blanks hbefore, trimStart_cons (by decide)]
    · rw [trimStart_blanks hafter, trimStart_cons (isBlank_quote hmark)]
      exact quoted?_eq hmark hvalue hne tail

/-- A name without a value in quotation marks is not found. -/
theorem attributeAt?_bare {given value tail rest : List Char} {attributes : List SpelledAttribute}
    (hgiven : Given tail given value false) (htail : Spells tail attributes rest) (word : List Char) :
    attributeAt? word (word ++ given) = none := by
  rw [Option.eq_none_iff_forall_ne_some]
  intro found hfound
  obtain ⟨behind, after, htext, htrim, hquoted⟩ := attributeAt?_eq_some_iff.1 hfound
  obtain rfl := List.append_cancel_left htext
  cases hgiven with
  | none =>
    obtain ⟨gap, c, back, rfl, hgap, hc, hne, -⟩ := htail.exists_gap
    rw [trimStart_blanks hgap, trimStart_cons hc] at htrim
    exact hne (List.cons.inj htrim).1
  | @unquoted before gap _ hbefore hgap hvalue hchars hstart =>
    obtain ⟨x, letters, rfl⟩ := List.exists_cons_of_ne_nil hvalue
    rw [trimStart_blanks hbefore, trimStart_cons (by decide)] at htrim
    rw [← (List.cons.inj htrim).2, trimStart_blanks hgap, List.cons_append, trimStart_cons (hstart x rfl),
      quoted?, Page.isQuote_eq_false (hchars x List.mem_cons_self)] at hquoted
    cases hquoted

/-! ## The attribute of a name -/

/-- Where one attribute at most passes a test, the first to pass it is the one. -/
theorem find?_of_single {test : SpelledAttribute → Bool} {spelled : SpelledAttribute} :
    ∀ {attributes : List SpelledAttribute},
    attributes.Pairwise (fun one other => test one = true → ¬ test other = true) →
    spelled ∈ attributes → test spelled = true → attributes.find? test = some spelled
  | first :: attributes, hsingle, hmem, htest => by
    obtain ⟨hfirst, hsingle⟩ := List.pairwise_cons.1 hsingle
    rcases List.mem_cons.1 hmem with rfl | hmem
    · rw [List.find?_cons_of_pos htest]
    · have hneg : ¬ test first = true := fun h => hfirst spelled hmem h htest
      rw [List.find?_cons_of_neg hneg]
      exact find?_of_single hsingle hmem htest

/-- Whether a text starts with a name and an equals sign, and a quotation mark or nothing more behind it. -/
def Opens (word text : List Char) : Prop :=
  ∃ rest after, text = word ++ rest ∧ Text.trimStart rest = '=' :: after ∧
    ∀ c ∈ (Text.trimStart after).head?, isQuote c = true

theorem opens_iff {word text : List Char} : Opens word text ↔
    (match (Text.after? word text).map Text.trimStart with
      | some ('=' :: after) => (Text.trimStart after).head?.all isQuote
      | _ => false) = true := by
  constructor
  · rintro ⟨rest, after, htext, htrim, hhead⟩
    rw [Text.after?_eq_some_iff.2 htext, Option.map_some, htrim]
    exact (Option.all_eq_true _ _).2 hhead
  · intro h
    split at h
    · rename_i after hafter
      obtain ⟨rest, hrest, htrim⟩ := Option.map_eq_some_iff.1 hafter
      exact ⟨rest, after, Text.after?_eq_some_iff.1 hrest, htrim, (Option.all_eq_true _ _).1 h⟩
    · cases h

instance (word text : List Char) : Decidable (Opens word text) := decidable_of_iff _ opens_iff.symm

/-- Whether the search of a tag for a name can find only the attribute the name stands for: an attribute
whose name differs from it in case alone, or ends in it before a quoted value, has the name itself, with a
value in quotation marks that holds none; there is one such attribute at most; and no quoted value looks as
if it held one. -/
structure Exposes (word : List Char) (attributes : List SpelledAttribute) : Prop where
  named : ∀ spelled ∈ attributes,
    spelled.name.map Char.toLower = word ∨ word <:+ spelled.name ∧ spelled.quoted = true →
    spelled.name = word ∧ spelled.quoted = true ∧ spelled.value ≠ [] ∧ ∀ c ∈ spelled.value, isQuote c = false
  single : attributes.Pairwise fun spelled other => spelled.name = word → other.name ≠ word
  quiet : ∀ spelled ∈ attributes, spelled.quoted = true → ∀ inner, inner <:+ spelled.value →
    ¬ Opens word inner

theorem Exposes.tail {word : List Char} {spelled : SpelledAttribute} {attributes : List SpelledAttribute}
    (h : Exposes word (spelled :: attributes)) : Exposes word attributes :=
  ⟨fun other hother => h.named other (List.mem_cons_of_mem _ hother), (List.pairwise_cons.1 h.single).2,
    fun other hother => h.quiet other (List.mem_cons_of_mem _ hother)⟩

section Named

variable {word : List Char} (hne : word ≠ []) (hword : ∀ c ∈ word, c.isAlpha = true)

include hne hword

theorem ofLetters_eq : OfLetters (· = word) := by
  rintro _ rfl
  refine ⟨hne, fun c hc => ?_⟩
  rw [Text.isWordChar, hword c hc, Bool.true_or]

/-- Inside a quoted value nothing is found that does not open there. -/
theorem attributeAt?_inner {inner tail : List Char} {mark : Char} (hmark : isQuote mark = true)
    (hopens : ¬ Opens word inner) : attributeAt? word (inner ++ mark :: tail) = none := by
  rw [Option.eq_none_iff_forall_ne_some]
  intro found hfound
  obtain ⟨rest, after, htext, htrim, hquoted⟩ := attributeAt?_eq_some_iff.1 hfound
  obtain ⟨_, extra, behind, hother, hpart, hextra⟩ := Assigns.before_mark (ofLetters_eq hne hword) hmark
    ⟨word, rest, rfl, htext, by rw [htrim]; rfl⟩
  rw [hother] at hpart
  subst hpart
  rw [List.append_assoc] at htext
  obtain rfl := (List.append_cancel_left htext).symm
  have hafter : after = behind ++ mark :: tail := by
    rcases trimStart_append extra (mark :: tail) with ⟨hnil, -⟩ | ⟨-, happend⟩
    · rw [hextra] at hnil
      cases hnil
    · rw [happend, hextra] at htrim
      exact (List.cons.inj htrim).2.symm
  refine hopens ⟨extra, behind, rfl, hextra, fun d hd => ?_⟩
  rcases trimStart_append behind (mark :: tail) with ⟨hnil, -⟩ | ⟨-, happend⟩
  · rw [hnil] at hd
    cases hd
  · obtain ⟨back, hback⟩ := List.head?_eq_some_iff.1 hd
    rw [hafter, happend, hback, List.cons_append, quoted?] at hquoted
    by_contra hnone
    rw [Bool.not_eq_true] at hnone
    rw [hnone] at hquoted
    cases hquoted

variable {α : Type} {at? : List Char → Option α} (hat : ∀ text, attributeAt? word text = none →
  at? text = none)

include hat

/-- Behind the name of an attribute nothing is found. -/
theorem lastInTag?_given {given value tail rest : List Char} {quoted : Bool}
    {attributes : List SpelledAttribute}
    (hgiven : Given tail given value quoted) (htail : Spells tail attributes rest)
    (hquiet : quoted = true → ∀ inner, inner <:+ value → ¬ Opens word inner) :
    lastInTag? at? given = lastInTag? at? tail := by
  have hletters := ofLetters_eq hne hword
  obtain ⟨front, rfl, hclose, -⟩ := hgiven.exists_front
  refine lastInTag?_append hclose ?_
  intro part hpart hpartne
  refine hat _ ?_
  by_cases h : Assigns (· = word) (part ++ tail)
  · obtain ⟨hquoted, inner, mark, hmark, hinner, rfl⟩ :=
      assigns_given hletters hgiven htail hpart hpartne h
    rw [List.append_assoc]
    exact attributeAt?_inner hne hword hmark (hquiet hquoted inner hinner)
  · exact attributeAt?_eq_none h

/-- Before the name of an attribute nothing is found. -/
theorem lastInTag?_gap {gap text : List Char} (hgap : Blanks gap) :
    lastInTag? at? (gap ++ text) = lastInTag? at? text :=
  lastInTag?_append (hgap.not_mem (by decide)) fun _ hpart hpartne =>
    hat _ (attributeAt?_eq_none (not_assigns_blanks (ofLetters_eq hne hword) hgap hpart hpartne _))

/-- Inside a name nothing is found, unless the name ends in the one looked for. -/
theorem lastInTag?_name {name part given : List Char} (hname : IsName name) (hpart : part <:+ name)
    (hgiven : ∃ d back, given = d :: back ∧ Page.isAttributeChar d = false)
    (hends : word <:+ part → attributeAt? word (word ++ given) = none) :
    lastInTag? at? (part ++ given) = lastInTag? at? given := by
  obtain ⟨d, back, rfl, hd⟩ := hgiven
  refine lastInTag?_append (fun hclose => hname.not_mem (by decide) (hpart.subset hclose)) ?_
  intro more hmore _
  refine hat _ ?_
  by_cases h : Assigns (· = word) (more ++ d :: back)
  · obtain ⟨rfl, -⟩ := assigns_name (ofLetters_eq hne hword) hname (hmore.trans hpart) hd h
    exact hends hmore
  · exact attributeAt?_eq_none h

/-- Around an attribute of another name nothing is found. -/
theorem lastInTag?_other {gap name given value tail rest : List Char} {quoted : Bool}
    {attributes : List SpelledAttribute} (hgap : Blanks gap) (hname : IsName name)
    (hgiven : Given tail given value quoted) (htail : Spells tail attributes rest)
    (hexposes : Exposes word (⟨name, value, quoted⟩ :: attributes)) (hother : name ≠ word) :
    lastInTag? at? (gap ++ (name ++ given)) = lastInTag? at? tail := by
  have hends : word <:+ name → attributeAt? word (word ++ given) = none := by
    intro hends
    cases quoted with
    | false => exact attributeAt?_bare hgiven htail word
    | true => exact absurd (hexposes.named _ List.mem_cons_self (.inr ⟨hends, rfl⟩)).1 hother
  rw [lastInTag?_gap hne hword hat hgap,
    lastInTag?_name hne hword hat hname List.suffix_rfl (hgiven.exists_head htail) hends,
    lastInTag?_given hne hword hat hgiven htail (hexposes.quiet _ List.mem_cons_self)]

/-- A tag without the attribute has nothing to find. -/
theorem lastInTag?_eq_none {text rest : List Char} {attributes : List SpelledAttribute}
    (h : Spells text attributes rest) (hexposes : Exposes word attributes)
    (hnone : ∀ spelled ∈ attributes, spelled.name ≠ word) : lastInTag? at? text = none := by
  have hletters := ofLetters_eq hne hword
  have hstop : ∀ {d : Char} (back : List Char), Page.isAttributeChar d = false → at? (d :: back) = none :=
    fun back hd => hat _ (attributeAt?_eq_none (not_assigns_cons hletters hd back))
  induction h with
  | close hgap =>
    rw [lastInTag?_gap hne hword hat hgap, lastInTag?]
    exact hstop _ (by decide)
  | selfClose hgap =>
    rw [lastInTag?_gap hne hword hat hgap, lastInTag?_cons (by decide), lastInTag?,
      hstop _ (by decide), hstop _ (by decide)]
    rfl
  | cons hgap hgapne hname hgiven htail ih =>
    rw [lastInTag?_other hne hword hat hgap hname hgiven htail hexposes (hnone _ List.mem_cons_self)]
    exact ih hexposes.tail fun other hother => hnone other (List.mem_cons_of_mem _ hother)

/-- The attribute of the name is what is found. -/
theorem lastInTag?_eq {text rest : List Char} {attributes : List SpelledAttribute}
    (h : Spells text attributes rest) (hexposes : Exposes word attributes)
    (hlower : word.map Char.toLower = word) {spelled : SpelledAttribute} (hmem : spelled ∈ attributes)
    (hspelled : spelled.name = word) :
    ∃ place tail others, attributeAt? word place = some (spelled.value, tail) ∧
      Spells tail others rest ∧ tail <:+ text ∧ lastInTag? at? text = at? place := by
  induction h with
  | close | selfClose => cases hmem
  | @cons gap name given value tail rest quoted attributes hgap hgapne hname hgiven htail ih =>
    have hsuffix : tail <:+ gap ++ (name ++ given) := by
      obtain ⟨front, rfl, -, -⟩ := hgiven.exists_front
      exact ⟨gap ++ (name ++ front), by simp⟩
    rcases List.mem_cons.1 hmem with rfl | hmem
    · obtain ⟨-, hquoted, hvalue, hmarks⟩ :=
        hexposes.named _ List.mem_cons_self (.inl (by rw [hspelled, hlower]))
      have hlast : lastInTag? at? given = none := by
        rw [lastInTag?_given hne hword hat hgiven htail (hexposes.quiet _ List.mem_cons_self)]
        refine lastInTag?_eq_none hne hword hat htail hexposes.tail fun other hother => ?_
        exact (List.pairwise_cons.1 hexposes.single).1 other hother hspelled
      refine ⟨name ++ given, tail, attributes, ?_, htail, hsuffix, ?_⟩
      · rw [show name = word from hspelled]
        rw [show quoted = true from hquoted] at hgiven
        exact attributeAt?_given hgiven hvalue hmarks word
      · obtain ⟨x, letters, rfl⟩ := List.exists_cons_of_ne_nil hname.ne_nil
        have hx : x ≠ '>' := by
          rintro rfl
          exact hname.not_mem (by decide) List.mem_cons_self
        have hends : ¬ word <:+ letters := by
          intro hends
          have hlength := hends.length_le
          rw [← show x :: letters = word from hspelled, List.length_cons] at hlength
          omega
        rw [lastInTag?_gap hne hword hat hgap, List.cons_append, lastInTag?_cons hx,
          lastInTag?_name hne hword hat hname (List.suffix_cons x letters) (hgiven.exists_head htail)
            fun h => absurd h hends, hlast, Option.none_or]
    · have hother : name ≠ word := fun hfirst =>
        (List.pairwise_cons.1 hexposes.single).1 spelled hmem hfirst hspelled
      obtain ⟨place, behind, others, hfound, hspells, hbehind, hlast⟩ := ih hexposes.tail hmem
      refine ⟨place, behind, others, hfound, hspells, hbehind.trans hsuffix, ?_⟩
      rw [lastInTag?_other hne hword hat hgap hname hgiven htail hexposes hother, hlast]

end Named

end AssetAudit.Dependency
