import AssetAudit.Proofs.LowerCase
import AssetAudit.Proofs.PageTag
import AssetAudit.Proofs.ReferenceSearch

/-!
# Tags as they are written

The text of a start tag after its name spells attributes, with gaps before them, and the end of the tag
(`Spells`). A tag that is written so ends with its only `>` (`Spells.exists_body`), has no tag inside it
unless a value has (`Spells.callsOnce`), and is read with these attributes, their names in lower case
(`StartsTag.pairs_eq`).
-/
namespace AssetAudit

/-! ## Characters -/

namespace Text

/-- Letters of the words looked for in tags. -/
def isWordChar (c : Char) : Bool := c.isAlpha || c == 'ſ'

theorem isAlpha_iff {c : Char} :
    c.isAlpha = true ↔ 65 ≤ c.toNat ∧ c.toNat ≤ 90 ∨ 97 ≤ c.toNat ∧ c.toNat ≤ 122 := by
  have hupper : c.isUpper = true ↔ 'A'.val ≤ c.val ∧ c.val ≤ 'Z'.val := decide_eq_true_iff
  have hlower : c.isLower = true ↔ 'a'.val ≤ c.val ∧ c.val ≤ 'z'.val :=
    (Bool.and_eq_true _ _).to_iff.trans (and_congr decide_eq_true_iff decide_eq_true_iff)
  rw [show c.isAlpha = (c.isUpper || c.isLower) from rfl, Bool.or_eq_true, hupper, hlower]
  simp only [UInt32.le_iff_toNat_le]
  rfl

theorem isBlank_eq_false {c : Char} (h : isWordChar c = true) : isBlank c = false := by
  rw [isWordChar, Bool.or_eq_true, isAlpha_iff, beq_iff_eq] at h
  rcases h with h | rfl
  · rw [← Bool.not_eq_true]
    simp only [isBlank, Bool.or_eq_true, Bool.and_eq_true, decide_eq_true_eq, beq_iff_eq]
    omega
  · decide

end Text

namespace Page

open Text (Blanks)

theorem isAttributeChar_iff {c : Char} : isAttributeChar c = true ↔
    Text.isAsciiBlank c = false ∧ c ≠ '<' ∧ c ≠ '>' ∧ c ≠ '"' ∧ c ≠ '\'' ∧ c ≠ '/' ∧ c ≠ '=' := by
  simp [isAttributeChar, and_assoc]

theorem isAttributeChar_of_isWordChar {c : Char} (h : Text.isWordChar c = true) :
    isAttributeChar c = true := by
  have hblank : Text.isAsciiBlank c = false := by
    rw [← Bool.not_eq_true]
    intro hblank
    have hblank := Text.isBlank_of_isAsciiBlank hblank
    rw [Text.isBlank_eq_false h] at hblank
    cases hblank
  rw [isAttributeChar_iff]
  refine ⟨hblank, ?_, ?_, ?_, ?_, ?_, ?_⟩ <;> rintro rfl <;> exact absurd h (by decide)

theorem isAttributeChar_blank {c : Char} (h : Text.isAsciiBlank c = true) : isAttributeChar c = false := by
  rw [isAttributeChar, h]
  rfl

theorem isAttributeChar_quote {c : Char} (h : Dependency.isQuote c = true) :
    isAttributeChar c = false := by
  rw [Dependency.isQuote, Bool.or_eq_true, beq_iff_eq, beq_iff_eq] at h
  rcases h with rfl | rfl <;> decide

theorem isQuote_eq_false {c : Char} (h : isValueChar c = true) : Dependency.isQuote c = false := by
  rw [← Bool.not_eq_true]
  intro hquote
  rw [isValueChar, isAttributeChar_quote hquote, Bool.false_or, beq_iff_eq] at h
  subst h
  cases hquote

/-! ## Written tags -/

/-- The name of an attribute, without a blank. -/
structure IsName (name : List Char) : Prop where
  ne_nil : name ≠ []
  chars : ∀ c ∈ name, isAttributeChar c = true ∧ Text.isBlank c = false

/-- An attribute as it is written. -/
structure SpelledAttribute where
  name : List Char
  value : List Char
  /-- Whether the value stands between quotation marks. -/
  quoted : Bool

/-- What stands between the name of an attribute and the text `tail` after the attribute: nothing, or a
value, with or without quotation marks. -/
inductive Given (tail : List Char) : List Char → List Char → Bool → Prop where
  | none : Given tail tail [] false
  | unquoted {before after value : List Char} (hbefore : Blanks before) (hafter : Blanks after)
      (hne : value ≠ []) (hvalue : ∀ c ∈ value, isValueChar c = true)
      (hstart : ∀ c ∈ value.head?, Text.isBlank c = false) (htail : tail.head? ≠ some '/') :
      Given tail (before ++ '=' :: (after ++ (value ++ tail))) value false
  | quoted {before after value : List Char} {mark : Char} (hbefore : Blanks before)
      (hafter : Blanks after) (hmark : Dependency.isQuote mark = true)
      (hvalue : ∀ c ∈ value, c ≠ mark ∧ c ≠ '>') :
      Given tail (before ++ '=' :: (after ++ mark :: (value ++ mark :: tail))) value true

/-- Whether a text spells attributes, each after a gap, and the end of their tag, before `rest`. -/
inductive Spells : List Char → List SpelledAttribute → List Char → Prop where
  | close {gap rest : List Char} (hgap : Blanks gap) : Spells (gap ++ '>' :: rest) [] rest
  | selfClose {gap rest : List Char} (hgap : Blanks gap) : Spells (gap ++ '/' :: '>' :: rest) [] rest
  | cons {gap name given value tail rest : List Char} {quoted : Bool} {attributes : List SpelledAttribute}
      (hgap : Blanks gap) (hne : gap ≠ []) (hname : IsName name) (hgiven : Given tail given value quoted)
      (h : Spells tail attributes rest) :
      Spells (gap ++ (name ++ given)) (⟨name, value, quoted⟩ :: attributes) rest

/-- A gap, and the character after it. -/
theorem Spells.exists_gap {text rest : List Char} {attributes : List SpelledAttribute}
    (h : Spells text attributes rest) :
    ∃ gap c back, text = gap ++ c :: back ∧ Blanks gap ∧ Text.isBlank c = false ∧ c ≠ '=' ∧
      (gap = [] → isAttributeChar c = false) := by
  cases h with
  | close hgap => exact ⟨_, _, _, rfl, hgap, by decide, by decide, fun _ => by decide⟩
  | selfClose hgap => exact ⟨_, _, _, rfl, hgap, by decide, by decide, fun _ => by decide⟩
  | @cons gap name given value tail rest quoted attributes hgap hne hname hgiven h =>
    obtain ⟨c, back, rfl⟩ := List.exists_cons_of_ne_nil hname.ne_nil
    have hc := hname.chars c List.mem_cons_self
    exact ⟨gap, c, back ++ given, rfl, hgap, hc.2,
      (isAttributeChar_iff.1 hc.1).2.2.2.2.2.2, fun h => absurd h hne⟩

theorem Spells.exists_head {text rest : List Char} {attributes : List SpelledAttribute}
    (h : Spells text attributes rest) : ∃ c back, text = c :: back ∧ isAttributeChar c = false := by
  obtain ⟨gap, c, back, rfl, hgap, -, -, hc⟩ := h.exists_gap
  cases gap with
  | nil => exact ⟨c, back, rfl, hc rfl⟩
  | cons d gap => exact ⟨d, gap ++ c :: back, rfl, isAttributeChar_blank (hgap d List.mem_cons_self)⟩

/-! ## The text of a written tag -/

theorem IsName.not_mem {name : List Char} {c : Char} (h : IsName name) (hc : isAttributeChar c = false) :
    c ∉ name := by
  intro hmem
  rw [(h.chars c hmem).1] at hc
  cases hc

/-- What is given behind a name does not depend on the text after the attribute, except for a slash. -/
theorem Given.exists_front {given value tail : List Char} {quoted : Bool}
    (h : Given tail given value quoted) :
    ∃ front, given = front ++ tail ∧ '>' ∉ front ∧
      ∀ other : List Char, other.head? = tail.head? → Given other (front ++ other) value quoted := by
  cases h with
  | none => exact ⟨[], rfl, List.not_mem_nil, fun other _ => .none⟩
  | @unquoted before after _ hbefore hafter hne hvalue hstart hhead =>
    refine ⟨before ++ '=' :: (after ++ value), by simp, ?_, ?_⟩
    · simp only [List.mem_append, List.mem_cons, not_or]
      exact ⟨hbefore.not_mem (by decide), by decide, hafter.not_mem (by decide),
        fun hmem => absurd (hvalue _ hmem) (by decide)⟩
    · intro other hother
      have hgiven : Given other _ value false :=
        .unquoted hbefore hafter hne hvalue hstart (hother ▸ hhead)
      simpa using hgiven
  | @quoted before after _ mark hbefore hafter hmark hvalue =>
    have hclose : '>' ≠ mark := by
      rintro rfl
      cases hmark
    refine ⟨before ++ '=' :: (after ++ mark :: (value ++ [mark])), by simp, ?_, ?_⟩
    · simp only [List.mem_append, List.mem_cons, List.not_mem_nil, or_false, not_or]
      exact ⟨hbefore.not_mem (by decide), by decide, hafter.not_mem (by decide), hclose,
        fun hmem => (hvalue _ hmem).2 rfl, hclose⟩
    · intro other _
      have hgiven : Given other _ value true := .quoted hbefore hafter hmark hvalue
      simpa using hgiven

/-- Whether a text starts with a character that belongs to no name and opens no tag. -/
def Breaks (text : List Char) : Prop :=
  ∃ d back, text = d :: back ∧ isAttributeChar d = false ∧ d ≠ '<'

theorem breaks_blanks {gap part : List Char} (hgap : Blanks gap) (hpart : part <:+ gap) (hne : part ≠ [])
    (back : List Char) : Breaks (part ++ back) := by
  obtain ⟨d, part, rfl⟩ := List.exists_cons_of_ne_nil hne
  have hd := hgap d (hpart.subset List.mem_cons_self)
  refine ⟨d, part ++ back, rfl, isAttributeChar_blank hd, ?_⟩
  rintro rfl
  cases hd

theorem breaks_quote {mark : Char} (hmark : Dependency.isQuote mark = true) (back : List Char) :
    Breaks (mark :: back) := by
  refine ⟨mark, back, rfl, isAttributeChar_quote hmark, ?_⟩
  rintro rfl
  cases hmark

/-- The text of a value starts behind blanks and an equals sign. -/
theorem suffix_equals_cases {before after core part : List Char} (hbefore : Blanks before)
    (hafter : Blanks after) (hpart : part <:+ before ++ '=' :: (after ++ core)) :
    Breaks part ∨ part <:+ core := by
  rcases Text.suffix_append_cases hpart with hpart | ⟨front, hfront, hne, rfl⟩
  · rcases List.suffix_cons_iff.1 hpart with rfl | hpart
    · exact .inl ⟨'=', _, rfl, by decide, by decide⟩
    · rcases Text.suffix_append_cases hpart with hpart | ⟨front, hfront, hne, rfl⟩
      · exact .inr hpart
      · exact .inl (breaks_blanks hafter hfront hne _)
  · exact .inl (breaks_blanks hbefore hfront hne _)

/-- A part of what is given behind a name does not start like a name, or it lies in the value. -/
theorem Given.suffix_cases {front value tail part : List Char} {quoted : Bool}
    (h : Given tail (front ++ tail) value quoted) (hpart : part <:+ front) (hne : part ≠ []) :
    Breaks part ∨ (part <:+ value ∧ ∀ c ∈ value, isValueChar c = true) ∨
      quoted = true ∧ ∃ inner mark, Dependency.isQuote mark = true ∧ inner <:+ value ∧
        part = inner ++ [mark] := by
  generalize hgiven : front ++ tail = given at h
  cases h with
  | none =>
    rw [List.append_left_eq_self.1 hgiven] at hpart
    exact absurd (List.suffix_nil.1 hpart) hne
  | @unquoted before after _ hbefore hafter _ hchars =>
    obtain rfl : front = before ++ '=' :: (after ++ value) := by
      refine List.append_cancel_right (hgiven.trans ?_)
      simp
    exact (suffix_equals_cases hbefore hafter hpart).imp_right fun hvalue => .inl ⟨hvalue, hchars⟩
  | @quoted before after _ mark hbefore hafter hmark =>
    obtain rfl : front = before ++ '=' :: (after ++ mark :: (value ++ [mark])) := by
      refine List.append_cancel_right (hgiven.trans ?_)
      simp
    rcases suffix_equals_cases hbefore hafter hpart with hbreaks | hpart
    · exact .inl hbreaks
    · rcases List.suffix_cons_iff.1 hpart with rfl | hpart
      · exact .inl (breaks_quote hmark _)
      · rcases Text.suffix_append_cases hpart with hpart | ⟨inner, hinner, -, rfl⟩
        · rcases List.suffix_cons_iff.1 hpart with rfl | hpart
          · exact .inl (breaks_quote hmark _)
          · exact absurd (List.suffix_nil.1 hpart) hne
        · exact .inr (.inr ⟨rfl, inner, mark, hmark, hinner, rfl⟩)

/-- A written tag ends with its only `>`, and is the same tag without the text after it. -/
theorem Spells.exists_body {text rest : List Char} {attributes : List SpelledAttribute}
    (h : Spells text attributes rest) :
    ∃ inside, text = inside ++ '>' :: rest ∧ '>' ∉ inside ∧ Spells (inside ++ ['>']) attributes [] := by
  induction h with
  | @close gap rest hgap => exact ⟨gap, rfl, hgap.not_mem (by decide), .close hgap⟩
  | @selfClose gap rest hgap =>
    refine ⟨gap ++ ['/'], by simp, ?_, ?_⟩
    · simp only [List.mem_append, List.mem_singleton, not_or]
      exact ⟨hgap.not_mem (by decide), by decide⟩
    · have hclosed : Spells (gap ++ '/' :: '>' :: []) [] [] := .selfClose hgap
      simpa using hclosed
  | @cons gap name given value tail rest quoted attributes hgap hne hname hgiven htail ih =>
    obtain ⟨inside, rfl, hinside, hspells⟩ := ih
    obtain ⟨front, rfl, hfront, hother⟩ := hgiven.exists_front
    refine ⟨gap ++ (name ++ (front ++ inside)), by simp, ?_, ?_⟩
    · simp only [List.mem_append, not_or]
      exact ⟨hgap.not_mem (by decide), hname.not_mem (by decide), hfront, hinside⟩
    · have hgiven := hother (inside ++ ['>']) (by cases inside <;> rfl)
      have hcons := Spells.cons hgap hne hname hgiven hspells
      simpa using hcons

/-- No tag is called inside the text of an attribute if it is not called inside a quoted value. -/
theorem Given.not_calls {front value tail part letters : List Char} {quoted : Bool}
    (h : Given tail (front ++ tail) value quoted) (hletters : ∀ c ∈ letters, Dependency.isQuote c = false)
    (hquiet : quoted = true → ∀ inner, inner <:+ value → ¬ Dependency.Calls ('<' :: letters) inner)
    (hpart : part <:+ front) (hne : part ≠ []) : ¬ Dependency.Calls ('<' :: letters) (part ++ tail) := by
  rcases h.suffix_cases hpart hne with ⟨d, back, rfl, -, hd⟩ | ⟨hvalue, hchars⟩ |
    ⟨hquoted, inner, mark, hmark, hinner, rfl⟩
  · rintro ⟨c, rest, htext, -⟩
    exact hd (List.cons.inj htext).1
  · exact Dependency.not_calls_part (fun hmem => absurd (hchars _ hmem) (by decide)) hvalue hne _
  · intro hcalls
    have hword : mark ∉ '<' :: letters := by
      rw [List.mem_cons, not_or]
      constructor
      · rintro rfl
        cases hmark
      · intro hmem
        rw [hletters mark hmem] at hmark
        cases hmark
    rw [List.append_assoc] at hcalls
    exact hquiet hquoted inner hinner (hcalls.of_append hword (Dependency.isBlank_quote hmark))

/-- No tag is called inside a written tag if it is not called inside one of its quoted values. -/
theorem Spells.not_calls {text rest letters : List Char} {attributes : List SpelledAttribute}
    (h : Spells text attributes rest) (hletters : ∀ c ∈ letters, Dependency.isQuote c = false)
    (hquiet : ∀ spelled ∈ attributes, spelled.quoted = true → ∀ inner, inner <:+ spelled.value →
      ¬ Dependency.Calls ('<' :: letters) inner) :
    ∀ place, place <:+ text → rest.length < place.length → ¬ Dependency.Calls ('<' :: letters) place := by
  -- the end of the tag: blanks and marks, none of which is `<`
  have hend : ∀ {ending place rest : List Char}, '<' ∉ ending → place <:+ ending ++ rest →
      rest.length < place.length → ¬ Dependency.Calls ('<' :: letters) place := by
    intro ending place rest hending hplace hlong
    rcases Text.suffix_append_cases hplace with hplace | ⟨part, hpart, hne, rfl⟩
    · exact absurd hplace.length_le (by omega)
    · exact Dependency.not_calls_part hending hpart hne rest
  induction h with
  | @close gap rest hgap =>
    intro place hplace hlong
    refine @hend (gap ++ ['>']) place rest ?_ (by simpa using hplace) hlong
    simp only [List.mem_append, List.mem_singleton, not_or]
    exact ⟨hgap.not_mem (by decide), by decide⟩
  | @selfClose gap rest hgap =>
    intro place hplace hlong
    refine @hend (gap ++ ['/', '>']) place rest ?_ (by simpa using hplace) hlong
    simp only [List.mem_append, not_or]
    exact ⟨hgap.not_mem (by decide), by decide⟩
  | @cons gap name given value tail rest quoted attributes hgap hne hname hgiven htail ih =>
    intro place hplace hlong
    obtain ⟨front, rfl, -, -⟩ := hgiven.exists_front
    rcases Text.suffix_append_cases hplace with hplace | ⟨part, hpart, hpartne, rfl⟩
    · rcases Text.suffix_append_cases hplace with hplace | ⟨part, hpart, hpartne, rfl⟩
      · rcases Text.suffix_append_cases hplace with hplace | ⟨part, hpart, hpartne, rfl⟩
        · exact ih (fun other hother => hquiet other (List.mem_cons_of_mem _ hother)) place hplace hlong
        · exact hgiven.not_calls hletters (hquiet _ List.mem_cons_self) hpart hpartne
      · exact Dependency.not_calls_part (hname.not_mem (by decide)) hpart hpartne _
    · exact Dependency.not_calls_part (hgap.not_mem (by decide)) hpart hpartne _

/-- From a written tag up to its end, or to a place inside it, there is no other one. -/
theorem Spells.callsOnce {text rest tail letters : List Char} {attributes : List SpelledAttribute}
    (h : Spells text attributes rest) (hletters : ∀ c ∈ letters, Dependency.isQuote c = false)
    (hopen : '<' ∉ letters)
    (hquiet : ∀ spelled ∈ attributes, spelled.quoted = true → ∀ inner, inner <:+ spelled.value →
      ¬ Dependency.Calls ('<' :: letters) inner)
    (htail : tail <:+ text) (hlong : rest.length ≤ tail.length) :
    Dependency.CallsOnce ('<' :: letters) ('<' :: (letters ++ text)) tail := by
  obtain ⟨front, rfl⟩ := htail
  refine ⟨'<', letters ++ front, by rw [List.append_assoc], ?_⟩
  intro part hpart hne
  rcases Text.suffix_append_cases hpart with ⟨before, rfl⟩ | ⟨word, hword, hwordne, rfl⟩
  · refine h.not_calls hletters hquiet (part ++ tail) ⟨before, by rw [List.append_assoc]⟩ ?_
    have hpos := List.length_pos_iff.2 hne
    rw [List.length_append]
    omega
  · rw [List.append_assoc]
    exact Dependency.not_calls_part hopen hword hwordne _

/-! ## Reading a written tag -/

theorem rest_passBlanks (c : Cursor) : (passBlanks c).rest = c.rest.dropWhile Text.isAsciiBlank := by
  rw [passBlanks, Cursor.rest_skip, Text.drop_length_takeWhile]

theorem attributeValue_quoted {c : Cursor} {mark : Char} {value tail : List Char}
    (hmark : Dependency.isQuote mark = true) (hvalue : ∀ d ∈ value, d ≠ mark)
    (hc : c.rest = mark :: (value ++ mark :: tail)) :
    ∃ after, attributeValue c = some (String.ofList value, after) ∧ after.rest = tail := by
  have hchars : (value ++ mark :: tail).takeWhile (· != mark) = value :=
    Text.takeWhile_front (fun d hd => bne_iff_ne.2 (hvalue d hd)) (by simp)
  refine ⟨c.skip (value.length + 2), ?_, ?_⟩
  · unfold attributeValue
    rw [hc]
    rw [Dependency.isQuote, Bool.or_comm] at hmark
    simp only [hmark, if_true, hchars]
    rw [if_pos (by simp)]
  · rw [Cursor.rest_skip, hc, show value.length + 2 = value.length + 1 + 1 from rfl, List.drop_succ_cons,
      List.drop_length_add_append, List.drop_succ_cons, List.drop_zero]

theorem attributeValue_unquoted {c : Cursor} {value tail : List Char} (hne : value ≠ [])
    (hvalue : ∀ d ∈ value, isValueChar d = true)
    (htail : ∃ d back, tail = d :: back ∧ isValueChar d = false) (hc : c.rest = value ++ tail) :
    ∃ after, attributeValue c = some (String.ofList value, after) ∧ after.rest = tail := by
  obtain ⟨d, back, rfl, hd⟩ := htail
  have hchars : (value ++ d :: back).takeWhile isValueChar = value := Text.takeWhile_front hvalue hd
  refine ⟨c.skip value.length, ?_, ?_⟩
  · obtain ⟨x, rest, rfl⟩ := List.exists_cons_of_ne_nil hne
    have hx : (x == '"' || x == '\'') = false := by
      rw [Bool.or_comm]
      exact isQuote_eq_false (hvalue x List.mem_cons_self)
    unfold attributeValue
    rw [hc, hchars]
    simp only [List.cons_append, hx]
    rfl
  · rw [Cursor.rest_skip, hc, List.drop_left]

/-- The label of a written attribute, in lower case, and its value. -/
def SpelledAttribute.pair (spelled : SpelledAttribute) : String × String :=
  (Text.lowercase (String.ofList spelled.name), String.ofList spelled.value)

/-- A label in lower case, where that is taken letter by letter. -/
theorem SpelledAttribute.pair_fst_eq_iff {spelled : SpelledAttribute} {word : List Char}
    (hword : ∀ d ∈ word, 0 < d.toNat ∧ d.toNat < 128 ∧ d ≠ 'k') :
    spelled.pair.1 = String.ofList word ↔ spelled.name.map Char.toLower = word := by
  rw [SpelledAttribute.pair, ← String.toList_inj, String.toList_ofList, Text.lowercase,
    String.toList_ofList,
    String.toList_ofList, Text.lowercaseFrom_eq_iff hword]

section Reading

variable {gap name given value tail rest : List Char} {quoted : Bool} {attributes : List SpelledAttribute}

theorem Given.exists_head (h : Given tail given value quoted) (htail : Spells tail attributes rest) :
    ∃ c back, given = c :: back ∧ isAttributeChar c = false := by
  cases h with
  | none => exact htail.exists_head
  | @unquoted before _ _ hbefore | @quoted before _ _ _ hbefore =>
    cases before with
    | nil => exact ⟨_, _, rfl, by decide⟩
    | cons d before => exact ⟨d, _, rfl, isAttributeChar_blank (hbefore d List.mem_cons_self)⟩

/-- Behind a name there is no value, and none is read, or a value that is read as it is. -/
theorem Given.reads (h : Given tail given value quoted) (htail : Spells tail attributes rest) {c : Cursor}
    (hc : c.rest = given) :
    (given = tail ∧ value = [] ∧ ∀ back, (passBlanks c).rest ≠ '=' :: back) ∨
      ∃ back after, (passBlanks c).rest = '=' :: back ∧ after.rest = tail ∧
        attributeValue (passBlanks ((passBlanks c).skip 1)) = some (String.ofList value, after) := by
  rw [rest_passBlanks, hc]
  have hvalue : ∀ {before after back : List Char} {d : Char}, Blanks before → Blanks after →
      Text.isAsciiBlank d = false → given = before ++ '=' :: (after ++ d :: back) →
      given.dropWhile Text.isAsciiBlank = '=' :: (after ++ d :: back) ∧
        (passBlanks ((passBlanks c).skip 1)).rest = d :: back := by
    intro before after back d hbefore hafter hd hgiven
    have hequals : given.dropWhile Text.isAsciiBlank = '=' :: (after ++ d :: back) := by
      rw [hgiven]
      exact Text.dropWhile_front hbefore (by decide)
    refine ⟨hequals, ?_⟩
    rw [rest_passBlanks, Cursor.rest_skip, rest_passBlanks, hc, hequals, List.drop_succ_cons,
      List.drop_zero]
    exact Text.dropWhile_front hafter hd
  cases h with
  | none =>
    refine .inl ⟨rfl, rfl, ?_⟩
    intro back hback
    obtain ⟨front, d, behind, rfl, hfront, hd, hne, -⟩ := htail.exists_gap
    rw [Text.dropWhile_front hfront (Text.isAsciiBlank_eq_false hd), List.cons.injEq] at hback
    exact hne hback.1
  | @unquoted _ _ _ hbefore hafter hne hchars hstart hhead =>
    obtain ⟨x, letters, rfl⟩ := List.exists_cons_of_ne_nil hne
    have hx := Text.isAsciiBlank_eq_false (hstart x rfl)
    obtain ⟨hequals, hfirst⟩ := hvalue hbefore hafter hx rfl
    obtain ⟨d, back, rfl, hd⟩ := htail.exists_head
    have hd : isValueChar d = false := by
      rw [List.head?_cons, ne_eq, Option.some.injEq] at hhead
      rw [isValueChar, hd, Bool.false_or, beq_eq_false_iff_ne]
      exact hhead
    obtain ⟨after, hread, hafter⟩ := attributeValue_unquoted hne hchars ⟨d, back, rfl, hd⟩ hfirst
    exact .inr ⟨_, after, hequals, hafter, hread⟩
  | @quoted _ _ _ mark hbefore hafter hmark hchars =>
    have hblank : Text.isAsciiBlank mark = false := by
      rw [Dependency.isQuote, Bool.or_eq_true, beq_iff_eq, beq_iff_eq] at hmark
      rcases hmark with rfl | rfl <;> decide
    obtain ⟨hequals, hstart⟩ := hvalue hbefore hafter hblank rfl
    obtain ⟨after, hread, hafter⟩ := attributeValue_quoted hmark (fun d hd => (hchars d hd).1) hstart
    exact .inr ⟨_, after, hequals, hafter, hread⟩

/-- One written attribute is read, and the reader stands behind it. -/
theorem attributesFrom_cons (hgap : Blanks gap) (hname : IsName name)
    (hgiven : Given tail given value quoted) (htail : Spells tail attributes rest) (n : Nat)
    (found : List Attribute) {c : Cursor} (hc : c.rest = gap ++ (name ++ given)) :
    ∃ (entry : Attribute) (after : Cursor), after.rest = tail ∧
      (entry.name, entry.value) = (⟨name, value, quoted⟩ : SpelledAttribute).pair ∧
      attributesFrom (n + 1) found c = attributesFrom n (entry :: found) after := by
  obtain ⟨x, letters, rfl⟩ := List.exists_cons_of_ne_nil hname.ne_nil
  have hx := isAttributeChar_iff.1 (hname.chars x List.mem_cons_self).1
  have hhere : (passBlanks c).rest = x :: (letters ++ given) := by
    rw [rest_passBlanks, hc]
    exact Text.dropWhile_front hgap hx.1
  have hletters : (passBlanks c).rest.takeWhile isAttributeChar = x :: letters := by
    obtain ⟨d, back, rfl, hd⟩ := hgiven.exists_head htail
    rw [hhere]
    exact Text.takeWhile_front (fun d hd => (hname.chars d hd).1) hd
  have hbare : ((passBlanks c).skip (x :: letters).length).rest = given := by
    rw [Cursor.rest_skip, hhere]
    exact List.drop_left
  rw [attributesFrom]
  simp only [hletters]
  split
  · rename_i h
    rw [hhere] at h
    cases h
  · rename_i h
    rw [hhere, List.cons.injEq] at h
    exact absurd h.1 hx.2.2.1
  · rename_i h
    rw [hhere, List.cons.injEq] at h
    exact absurd h.1 hx.2.1
  · rename_i h
    rw [hhere, List.cons.injEq] at h
    exact absurd h.1 hx.2.2.2.2.2.1
  · rw [if_neg (by simp)]
    rcases hgiven.reads htail hbare with ⟨rfl, rfl, hnone⟩ | ⟨back, after, hequals, hafter, hread⟩
    · split
      · rename_i h
        exact absurd h (hnone _)
      · exact ⟨_, _, hbare, rfl, rfl⟩
    · rw [hequals]
      simp only [hread]
      exact ⟨_, after, hafter, rfl, rfl⟩

theorem attributesFrom_nil {text : List Char} (h : Spells text [] rest) {n : Nat}
    {found read : List Attribute} {c after : Cursor} {ending : TagEnd} (hc : c.rest = text)
    (hread : attributesFrom n found c = (read, ending, after)) (hending : ending ≠ .broken) :
    read = found.reverse := by
  cases n with
  | zero =>
    cases hread
    exact absurd rfl hending
  | succ n =>
    have hhere := rest_passBlanks c
    rw [hc] at hhere
    rw [attributesFrom] at hread
    cases h with
    | close hgap | selfClose hgap =>
      rw [Text.dropWhile_front hgap (by decide)] at hhere
      simp only [hhere] at hread
      exact (congrArg Prod.fst hread).symm

/-- The attributes of a written tag are read as they are written, unless the tag breaks off. -/
theorem Spells.attributesFrom_eq {text : List Char} (h : Spells text attributes rest) :
    ∀ {n : Nat} {found read : List Attribute} {c after : Cursor} {ending : TagEnd}, c.rest = text →
      attributesFrom n found c = (read, ending, after) → ending ≠ .broken →
      read.map (fun entry => (entry.name, entry.value)) =
        found.reverse.map (fun entry => (entry.name, entry.value)) ++
          attributes.map SpelledAttribute.pair := by
  induction h with
  | close hgap =>
    intro n found read c after ending hc hread hending
    rw [attributesFrom_nil (.close hgap) hc hread hending, List.map_nil, List.append_nil]
  | selfClose hgap =>
    intro n found read c after ending hc hread hending
    rw [attributesFrom_nil (.selfClose hgap) hc hread hending, List.map_nil, List.append_nil]
  | cons hgap hne hname hgiven htail ih =>
    intro n found read c after ending hc hread hending
    cases n with
    | zero =>
      cases hread
      exact absurd rfl hending
    | succ n =>
      obtain ⟨entry, stop, hstop, hentry, hstep⟩ := attributesFrom_cons hgap hname hgiven htail n found hc
      rw [hstep] at hread
      rw [ih hstop hread hending, List.reverse_cons, List.map_append, List.map_singleton, hentry,
        List.append_assoc]
      rfl

end Reading

theorem isTagChar_eq_false {c : Char} (h : isAttributeChar c = false) : isTagChar c = false := by
  rw [← Bool.not_eq_true]
  intro htag
  have hchar : isAttributeChar c = true := by
    rw [isAttributeChar_iff]
    refine ⟨?_, ?_, ?_, ?_, ?_, ?_, ?_⟩
    · rw [← Bool.not_eq_true, Text.isAsciiBlank_iff]
      rw [isTagChar, Bool.or_eq_true, Bool.or_eq_true, beq_iff_eq, beq_iff_eq] at htag
      rcases htag with (htag | rfl) | rfl
      · simp only [Char.isAlphanum, Bool.or_eq_true, Text.isAlpha_iff, Char.isDigit, Bool.and_eq_true,
          decide_eq_true_eq, ge_iff_le, UInt32.le_iff_toNat_le] at htag
        have hnat : c.val.toNat = c.toNat := rfl
        have hzero : '0'.val.toNat = 48 := rfl
        omega
      · decide
      · decide
    all_goals
      rintro rfl
      exact absurd htag (by decide)
  rw [h] at hchar
  cases hchar

/-- A tag whose name and attributes are written out is read with these attributes. -/
theorem StartsTag.pairs_eq {c : Cursor} {tag : Tag} {word text rest : List Char}
    {attributes : List SpelledAttribute} (h : StartsTag c tag) (hword : ∀ d ∈ word, d.isAlpha = true)
    (hne : word ≠ []) (hc : c.rest = '<' :: (word ++ text)) (htext : Spells text attributes rest) :
    tag.attributes.map (fun entry => (entry.name, entry.value)) = attributes.map SpelledAttribute.pair := by
  obtain ⟨-, -, fuel, ending, after, hending, hread⟩ := h
  have hnamed : (passBlanks (c.skip 1)).rest = word ++ text := by
    obtain ⟨x, letters, rfl⟩ := List.exists_cons_of_ne_nil hne
    have hx : Text.isWordChar x = true := by rw [Text.isWordChar, hword x List.mem_cons_self, Bool.true_or]
    rw [rest_passBlanks, Cursor.rest_skip, hc, List.drop_succ_cons, List.drop_zero, List.cons_append,
      List.dropWhile_cons_of_neg]
    rw [Text.isAsciiBlank_eq_false (Text.isBlank_eq_false hx)]
    decide
  have hname : tagName (passBlanks (c.skip 1)).rest = word := by
    obtain ⟨d, back, rfl, hd⟩ := htext.exists_head
    rw [hnamed]
    refine Text.takeWhile_front (fun d hd => ?_) (isTagChar_eq_false hd)
    rw [isTagChar, Char.isAlphanum, hword d hd]
    rfl
  have hstart : ((passBlanks (c.skip 1)).skip (tagName (passBlanks (c.skip 1)).rest).length).rest = text := by
    rw [hname, Cursor.rest_skip, hnamed, List.drop_left]
  rw [htext.attributesFrom_eq hstart hread hending]
  rfl

/-- The first attribute of a label, as it is written. -/
theorem attribute?_eq_of_pairs {tag : Tag} {attributes : List SpelledAttribute}
    (h : tag.attributes.map (fun entry => (entry.name, entry.value)) = attributes.map SpelledAttribute.pair)
    (label : String) :
    tag.attribute? label = (attributes.find? (·.pair.1 == label)).map (·.pair.2) := by
  have hread : tag.attribute? label =
      ((tag.attributes.map fun entry => (entry.name, entry.value)).find? (·.1 == label)).map (·.2) := by
    rw [List.find?_map, Option.map_map]
    rfl
  rw [hread, h, List.find?_map, Option.map_map]
  rfl

end Page
end AssetAudit
