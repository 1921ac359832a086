import AssetAudit.Proofs.SearchedTag

/-!
# The relation of a link

A link is read as that of a style sheet if a word of its relation says so (`Relates.linksStyle_iff`); a
search of its text looks for a relation that starts with the word, and finds the one that is written if no
other name or value misleads it (`Relates`, `isStylesheet_iff`).
-/
namespace AssetAudit.Dependency

open Page (SpelledAttribute Given Spells IsName)
open Text (Blanks trimStart_append trimStart_blanks trimStart_cons)

/-! ## Letters -/

theorem isAlpha_of_toLower {c : Char} (h : c.toLower.isAlpha = true) : c.isAlpha = true := by
  by_cases hupper : c.isUpper = true
  · rw [show c.isAlpha = (c.isUpper || c.isLower) from rfl, hupper, Bool.true_or]
  · have hsame : c.toLower = c := dif_neg fun hrange => hupper (decide_eq_true hrange)
    rwa [hsame] at h

theorem isWordChar_of_isLetter {a c : Char} (ha : a.isAlpha = true) (h : isLetter a c = true) :
    Text.isWordChar c = true := by
  rw [isLetter, Bool.or_eq_true, beq_iff_eq, Bool.and_eq_true, beq_iff_eq] at h
  rw [Text.isWordChar, Bool.or_eq_true]
  rcases h with rfl | ⟨-, h⟩
  · exact .inl (isAlpha_of_toLower ha)
  · exact .inr h

/-- A word of letters ends before a character that belongs to no name. -/
theorem isSome_afterLetters?_append {back : List Char} {d : Char} (hd : Page.isAttributeChar d = false) :
    ∀ {small : List Char}, (∀ a ∈ small, a.isAlpha = true) → ∀ text : List Char,
      (afterLetters? small (text ++ d :: back)).isSome = (afterLetters? small text).isSome
  | [], _, _ => rfl
  | a :: small, hsmall, [] => by
    have hletter : isLetter a d = false := by
      rw [← Bool.not_eq_true]
      intro hletter
      have hchar := Page.isAttributeChar_of_isWordChar
        (isWordChar_of_isLetter (hsmall a List.mem_cons_self) hletter)
      rw [hd] at hchar
      cases hchar
    rw [List.nil_append, show afterLetters? (a :: small) (d :: back) = none from if_neg (by simp [hletter])]
    rfl
  | a :: small, hsmall, c :: text => by
    rw [List.cons_append, afterLetters?, afterLetters?]
    split
    · exact isSome_afterLetters?_append hd (fun b hb => hsmall b (List.mem_cons_of_mem _ hb)) text
    · rfl

theorem afterLetters?_eq_some_iff : ∀ {small text rest : List Char}, 's' ∉ small →
    (afterLetters? small text = some rest ↔ ∃ word, word.map Char.toLower = small ∧ text = word ++ rest)
  | [], text, rest, _ => by
    rw [afterLetters?, Option.some.injEq]
    constructor
    · rintro rfl
      exact ⟨[], rfl, rfl⟩
    · rintro ⟨word, hword, rfl⟩
      rw [List.map_eq_nil_iff.1 hword, List.nil_append]
  | a :: small, [], rest, _ => by
    constructor
    · rintro ⟨⟩
    · rintro ⟨word, hword, htext⟩
      rw [(List.append_eq_nil_iff.1 htext.symm).1] at hword
      cases hword
  | a :: small, c :: text, rest, hs => by
    rw [List.mem_cons, not_or] at hs
    have hletter : isLetter a c = (c.toLower == a) := by
      rw [isLetter, beq_eq_false_iff_ne.2 (Ne.symm hs.1), Bool.false_and, Bool.or_false]
    rw [afterLetters?, Option.ite_none_right_eq_some, hletter, beq_iff_eq, afterLetters?_eq_some_iff hs.2]
    constructor
    · rintro ⟨rfl, word, rfl, rfl⟩
      exact ⟨c :: word, rfl, rfl⟩
    · rintro ⟨word, hword, htext⟩
      cases word with
      | nil => cases hword
      | cons d word =>
        obtain ⟨rfl, hsmall⟩ := List.cons.inj hword
        obtain ⟨rfl, hrest⟩ := List.cons.inj htext
        exact ⟨rfl, word, hsmall, hrest⟩

/-! ## Relations -/

/-- The name of a relation, whatever its case. -/
def IsRelation (word : List Char) : Prop := word.map Char.toLower = "rel".toList

instance (word : List Char) : Decidable (IsRelation word) :=
  inferInstanceAs (Decidable (word.map Char.toLower = "rel".toList))

/-- Whether a text starts with the word for a style sheet. -/
def startsSheet (text : List Char) : Bool := (afterLetters? "stylesheet".toList text).isSome

theorem ofLetters_isRelation : OfLetters IsRelation := by
  intro word hword
  constructor
  · rintro rfl
    cases hword
  · intro c hc
    have hlower : c.toLower ∈ "rel".toList := hword ▸ List.mem_map_of_mem hc
    have halpha : ∀ d ∈ "rel".toList, d.isAlpha = true := by decide
    rw [Text.isWordChar, isAlpha_of_toLower (halpha _ hlower), Bool.true_or]

theorem startsSheet_append {d : Char} (hd : Page.isAttributeChar d = false) (text back : List Char) :
    startsSheet (text ++ d :: back) = startsSheet text :=
  isSome_afterLetters?_append hd (by decide) text

/-- The text without a quotation mark before it. -/
def afterMark : List Char → List Char
  | c :: text => if isQuote c then text else c :: text
  | [] => []

theorem afterMark_of_quote {mark : Char} (h : isQuote mark = true) (text : List Char) :
    afterMark (mark :: text) = text := if_pos h

theorem afterMark_append {text : List Char} (h : text ≠ []) (back : List Char) :
    afterMark (text ++ back) = afterMark text ++ back := by
  obtain ⟨c, text, rfl⟩ := List.exists_cons_of_ne_nil h
  rw [List.cons_append, afterMark, afterMark]
  split <;> rfl

theorem assigns_of_isStylesheetAt {text : List Char} (h : isStylesheetAt text = true) :
    Assigns IsRelation text := by
  unfold isStylesheetAt at h
  split at h
  · rename_i after hafter
    obtain ⟨rest, hrest, htrim⟩ := Option.map_eq_some_iff.1 hafter
    obtain ⟨word, hword, htext⟩ := (afterLetters?_eq_some_iff (by decide)).1 hrest
    exact ⟨word, rest, hword, htext, by rw [htrim]; rfl⟩
  · cases h

/-- A relation is read behind its equals sign. -/
theorem isStylesheetAt_append {word rest after : List Char} (hword : IsRelation word)
    (hrest : Text.trimStart rest = '=' :: after) :
    isStylesheetAt (word ++ rest) = startsSheet (afterMark (Text.trimStart after)) := by
  unfold isStylesheetAt
  rw [(afterLetters?_eq_some_iff (by decide)).2 ⟨word, hword, rfl⟩, Option.map_some, hrest]
  simp only
  cases Text.trimStart after <;> rfl

/-- Nothing inside a quoted value is taken for the relation if nothing in the value alone is. -/
theorem isStylesheetAt_inner {inner tail rest : List Char} {mark : Char}
    {attributes : List SpelledAttribute}
    (hmark : isQuote mark = true) (htail : Spells tail attributes rest)
    (hsheet : isStylesheetAt inner = false) : isStylesheetAt (inner ++ mark :: tail) = false := by
  rw [← Bool.not_eq_true]
  intro h
  obtain ⟨word, extra, behind, hword, rfl, hextra⟩ :=
    Assigns.before_mark ofLetters_isRelation hmark (assigns_of_isStylesheetAt h)
  have htrim : Text.trimStart (extra ++ mark :: tail) = '=' :: (behind ++ mark :: tail) := by
    rcases trimStart_append extra (mark :: tail) with ⟨hnil, -⟩ | ⟨-, happend⟩
    · rw [hextra] at hnil
      cases hnil
    · rw [happend, hextra, List.cons_append]
  rw [List.append_assoc, isStylesheetAt_append hword htrim] at h
  rw [isStylesheetAt_append hword hextra] at hsheet
  rcases trimStart_append behind (mark :: tail) with ⟨-, happend⟩ | ⟨hcons, happend⟩
  · -- the value ends behind the equals sign, and its closing mark is taken for an opening one
    obtain ⟨d, back, rfl, hd⟩ := htail.exists_head
    have hstart := startsSheet_append hd [] back
    rw [happend, trimStart_cons (isBlank_quote hmark), afterMark_of_quote hmark] at h
    rw [List.nil_append, h] at hstart
    cases hstart
  · rw [happend, afterMark_append hcons, startsSheet_append (Page.isAttributeChar_quote hmark), hsheet] at h
    cases h

/-- The relation of a link starts with the word for a style sheet if its value does. -/
theorem isStylesheetAt_name {name part given value tail rest : List Char} {quoted : Bool}
    {attributes : List SpelledAttribute} (hname : IsName name) (hpart : part <:+ name)
    (hrelation : IsRelation part)
    (hgiven : Given tail given value quoted) (htail : Spells tail attributes rest) :
    isStylesheetAt (part ++ given) = startsSheet value := by
  obtain ⟨d, back, hback, hd⟩ := htail.exists_head
  cases hgiven with
  | none =>
    show isStylesheetAt (part ++ _) = false
    rw [← Bool.not_eq_true]
    intro h
    have hassigns := assigns_of_isStylesheetAt h
    rw [hback] at hassigns
    have hequals := (assigns_name ofLetters_isRelation hname hpart hd hassigns).2
    obtain ⟨gap, c, behind, htext, hgap, hc, hne, -⟩ := htail.exists_gap
    rw [← hback, htext, trimStart_blanks hgap, trimStart_cons hc, List.head?_cons,
      Option.some.injEq] at hequals
    exact hne hequals
  | @unquoted before after _ hbefore hafter hvalue hchars hstart =>
    obtain ⟨x, letters, rfl⟩ := List.exists_cons_of_ne_nil hvalue
    have hmark : afterMark (x :: letters) = x :: letters := if_neg (by
      rw [Page.isQuote_eq_false (hchars x List.mem_cons_self)]
      decide)
    have htrim : Text.trimStart (before ++ '=' :: (after ++ (x :: letters ++ tail))) =
        '=' :: (after ++ (x :: letters ++ tail)) := by
      rw [trimStart_blanks hbefore, trimStart_cons (by decide)]
    rw [isStylesheetAt_append hrelation htrim, trimStart_blanks hafter, List.cons_append,
      trimStart_cons (hstart x rfl), ← List.cons_append, afterMark_append hvalue, hmark, hback,
      startsSheet_append hd]
  | @quoted before after _ mark hbefore hafter hmark hchars =>
    have htrim : Text.trimStart (before ++ '=' :: (after ++ mark :: (value ++ mark :: tail))) =
        '=' :: (after ++ mark :: (value ++ mark :: tail)) := by
      rw [trimStart_blanks hbefore, trimStart_cons (by decide)]
    rw [isStylesheetAt_append hrelation htrim, trimStart_blanks hafter,
      trimStart_cons (isBlank_quote hmark), afterMark_of_quote hmark,
      startsSheet_append (Page.isAttributeChar_quote hmark)]

/-! ## The relation in a tag -/

theorem isStylesheet_append {tail : List Char} : ∀ {front : List Char},
    (∀ part, part <:+ front → part ≠ [] → isStylesheetAt (part ++ tail) = false) →
    isStylesheet (front ++ tail) = isStylesheet tail
  | [], _ => rfl
  | c :: front, hquiet => by
    have hnone : isStylesheetAt (c :: (front ++ tail)) = false :=
      hquiet _ List.suffix_rfl (List.cons_ne_nil _ _)
    rw [List.cons_append, isStylesheet, hnone, Bool.false_or]
    exact isStylesheet_append fun part hpart => hquiet part (hpart.trans (List.suffix_cons c front))

theorem isStylesheetAt_eq_false {part : List Char} : ∀ {text : List Char}, isStylesheet text = false →
    part <:+ text → isStylesheetAt part = false
  | [], _, hpart => by
    rw [List.suffix_nil.1 hpart]
    rfl
  | c :: text, h, hpart => by
    rw [isStylesheet, Bool.or_eq_false_iff] at h
    rcases List.suffix_cons_iff.1 hpart with rfl | hpart
    · exact h.1
    · exact isStylesheetAt_eq_false h.2 hpart

/-- Whether the search of a link for its relation can find only the attribute it is: a name that ends in
`rel`, whatever the case, is that name, or its value does not start with the word for a style sheet; there
is one such attribute at most; and no quoted value looks as if it held one. -/
structure Relates (attributes : List SpelledAttribute) : Prop where
  named : ∀ spelled ∈ attributes, ∀ part, part <:+ spelled.name → IsRelation part →
    part = spelled.name ∨ startsSheet spelled.value = false
  single : attributes.Pairwise fun spelled other => IsRelation spelled.name → ¬ IsRelation other.name
  quiet : ∀ spelled ∈ attributes, spelled.quoted = true → isStylesheet spelled.value = false

theorem Relates.tail {spelled : SpelledAttribute} {attributes : List SpelledAttribute}
    (h : Relates (spelled :: attributes)) : Relates attributes :=
  ⟨fun other hother => h.named other (List.mem_cons_of_mem _ hother), (List.pairwise_cons.1 h.single).2,
    fun other hother => h.quiet other (List.mem_cons_of_mem _ hother)⟩

theorem isStylesheetAt_of_not_assigns {text : List Char} (h : ¬ Assigns IsRelation text) :
    isStylesheetAt text = false := by
  rw [← Bool.not_eq_true]
  exact fun htrue => h (assigns_of_isStylesheetAt htrue)

/-- Before the name of an attribute no relation is found. -/
theorem isStylesheet_gap {gap : List Char} (hgap : Blanks gap) (text : List Char) :
    isStylesheet (gap ++ text) = isStylesheet text :=
  isStylesheet_append fun _ hpart hne =>
    isStylesheetAt_of_not_assigns (not_assigns_blanks ofLetters_isRelation hgap hpart hne _)

section Attribute

variable {gap name given value tail rest : List Char} {quoted : Bool} {attributes : List SpelledAttribute}

/-- Behind the name of an attribute no relation is found. -/
theorem isStylesheet_given (hgiven : Given tail given value quoted) (htail : Spells tail attributes rest)
    (hquiet : quoted = true → isStylesheet value = false) : isStylesheet given = isStylesheet tail := by
  obtain ⟨front, rfl, -, -⟩ := hgiven.exists_front
  refine isStylesheet_append fun part hpart hne => ?_
  by_cases h : Assigns IsRelation (part ++ tail)
  · obtain ⟨hquoted, inner, mark, hmark, hinner, rfl⟩ :=
      assigns_given ofLetters_isRelation hgiven htail hpart hne h
    rw [List.append_assoc]
    exact isStylesheetAt_inner hmark htail (isStylesheetAt_eq_false (hquiet hquoted) hinner)
  · exact isStylesheetAt_of_not_assigns h

/-- Inside a name a relation is found where the name ends in its word, if the value starts so. -/
theorem isStylesheetAt_part {part : List Char} (hname : IsName name) (hpart : part <:+ name)
    (hgiven : Given tail given value quoted) (htail : Spells tail attributes rest) :
    isStylesheetAt (part ++ given) = true ↔ IsRelation part ∧ startsSheet value = true := by
  by_cases hrelation : IsRelation part
  · rw [isStylesheetAt_name hname hpart hrelation hgiven htail, and_iff_right hrelation]
  · obtain ⟨d, back, rfl, hd⟩ := hgiven.exists_head htail
    have hnone : ¬ Assigns IsRelation (part ++ d :: back) :=
      fun h => hrelation (assigns_name ofLetters_isRelation hname hpart hd h).1
    rw [isStylesheetAt_of_not_assigns hnone]
    exact iff_of_false (by decide) fun h => hrelation h.1

theorem isStylesheet_cons (hgap : Blanks gap) (hname : IsName name)
    (hgiven : Given tail given value quoted) (htail : Spells tail attributes rest)
    (hnamed : ∀ part, part <:+ name → IsRelation part → part = name ∨ startsSheet value = false)
    (hquiet : quoted = true → isStylesheet value = false) :
    isStylesheet (gap ++ (name ++ given)) = true ↔
      IsRelation name ∧ startsSheet value = true ∨ isStylesheet tail = true := by
  obtain ⟨x, letters, rfl⟩ := List.exists_cons_of_ne_nil hname.ne_nil
  have hletters : isStylesheet (letters ++ given) = isStylesheet given := by
    refine isStylesheet_append fun part hshort _ => ?_
    have hpart : part <:+ x :: letters := hshort.trans (List.suffix_cons _ _)
    rw [← Bool.not_eq_true, isStylesheetAt_part hname hpart hgiven htail]
    rintro ⟨hrelation, hstarts⟩
    rcases hnamed part hpart hrelation with rfl | hnone
    · exact absurd hshort.length_le (by simp)
    · rw [hstarts] at hnone
      cases hnone
  rw [isStylesheet_gap hgap, List.cons_append, isStylesheet, hletters,
    isStylesheet_given hgiven htail hquiet, Bool.or_eq_true, ← List.cons_append,
    isStylesheetAt_part hname List.suffix_rfl hgiven htail]

end Attribute

/-- The relation of a style sheet is found in a tag if an attribute is that relation. -/
theorem isStylesheet_iff {text rest : List Char} {attributes : List SpelledAttribute}
    (h : Spells text attributes rest) (hrelates : Relates attributes) (hrest : rest = []) :
    isStylesheet text = true ↔
      ∃ spelled ∈ attributes, IsRelation spelled.name ∧ startsSheet spelled.value = true := by
  induction h with
  | close hgap | selfClose hgap =>
    subst hrest
    rw [isStylesheet_gap hgap]
    exact iff_of_false (by decide) (by rintro ⟨_, ⟨⟩, -⟩)
  | cons hgap hne hname hgiven htail ih =>
    refine (isStylesheet_cons hgap hname hgiven htail (hrelates.named _ List.mem_cons_self)
      (hrelates.quiet _ List.mem_cons_self)).trans ?_
    rw [List.exists_mem_cons_iff]
    exact or_congr_right (ih hrelates.tail hrest)

/-! ## The relation of a tag that is read -/

/-- Whether the value of a relation has the word for a style sheet. -/
def NamesSheet (value : List Char) : Prop :=
  ∃ word ∈ Text.words value, word.map Char.toLower = "stylesheet".toList

instance (value : List Char) : Decidable (NamesSheet value) :=
  inferInstanceAs (Decidable (∃ word ∈ Text.words value, word.map Char.toLower = "stylesheet".toList))

theorem Relates.linksStyle_iff {tag : Page.Tag} {attributes : List SpelledAttribute}
    (h : Relates attributes)
    (hpairs : tag.attributes.map (fun entry => (entry.name, entry.value)) =
      attributes.map SpelledAttribute.pair) :
    Page.linksStyle tag = true ↔
      ∃ spelled ∈ attributes, IsRelation spelled.name ∧ NamesSheet spelled.value := by
  have hlabel : ∀ spelled : SpelledAttribute,
      (spelled.pair.1 == "rel") = true ↔ IsRelation spelled.name := by
    intro spelled
    rw [beq_iff_eq]
    exact @SpelledAttribute.pair_fst_eq_iff spelled "rel".toList (by decide)
  unfold Page.linksStyle
  rw [Page.attribute?_eq_of_pairs hpairs]
  cases hfind : attributes.find? (·.pair.1 == "rel") with
  | none =>
    simp only [Option.map_none]
    constructor
    · rintro ⟨⟩
    · rintro ⟨spelled, hmem, hrelation, -⟩
      exact absurd ((hlabel spelled).2 hrelation) (List.find?_eq_none.1 hfind spelled hmem)
  | some found =>
    have hmem := List.mem_of_find?_eq_some hfind
    have htest := List.find?_some hfind
    have hrelation := (hlabel found).1 htest
    simp only [Option.map_some, List.any_eq_true, beq_iff_eq]
    rw [SpelledAttribute.pair, String.toList_ofList]
    constructor
    · intro hnames
      exact ⟨found, hmem, hrelation, hnames⟩
    · rintro ⟨spelled, hspelled, hother, hnames⟩
      have hsingle : attributes.Pairwise fun one other =>
          (one.pair.1 == "rel") = true → ¬ (other.pair.1 == "rel") = true := by
        refine h.single.imp fun himp hone => ?_
        rw [hlabel] at hone ⊢
        exact himp hone
      have hsame := find?_of_single hsingle hspelled ((hlabel spelled).2 hother)
      rw [hfind, Option.some.injEq] at hsame
      rwa [hsame]

end AssetAudit.Dependency
