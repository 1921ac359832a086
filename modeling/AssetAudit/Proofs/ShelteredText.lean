import AssetAudit.Proofs.NodeForm

/-!
# Sheltered colons

An expression of a script holds a colon only behind a question mark, an opening bracket or the start of a
quotation, a template, a regular expression or a comment. A text is sheltered (`isSheltered`) if it can be
the text of an expression by this measure; it holds no backslash before such a character either, but for the
escapes of words. What is known of the texts that rules read (`Cover`) is put together from what is known of
their parts, and lexemes are its start (`Lexeme.holds_cover`).
-/
namespace AssetAudit.Script

/-! ## Texts -/

/-- The characters behind which an expression can hold a colon. -/
def openings : List Char := ['?', '(', '[', '\x7b', '<', '\'', '"', backtick, '/']

def isOpening (c : Char) : Bool := openings.contains c

/-- Whether neither a colon nor a backslash that starts no escape of a word stands before the first opening
character. -/
def isSheltered : List Char → Bool
  | [] => true
  | c :: rest =>
    isOpening c || c != ':' && (c != '\\' || rest.head? == some 'u') && isSheltered rest

/-- Behind an opening character anything may follow, and else a sheltered text. -/
theorem isSheltered_append_of_or {front back : List Char} (hfront : isSheltered front = true)
    (h : front.any isOpening = true ∨ isSheltered back = true) : isSheltered (front ++ back) = true := by
  induction front with
  | nil => exact h.resolve_left Bool.false_ne_true
  | cons c rest ih =>
    rw [List.any_cons, Bool.or_eq_true, or_assoc] at h
    rw [isSheltered, Bool.or_eq_true] at hfront
    rw [List.cons_append, isSheltered, Bool.or_eq_true]
    by_cases hc : isOpening c = true
    · exact .inl hc
    · right
      have hclosed := hfront.resolve_left hc
      rw [Bool.and_eq_true, Bool.and_eq_true, Bool.or_eq_true] at hclosed ⊢
      obtain ⟨⟨hcolon, hescape⟩, hrest⟩ := hclosed
      refine ⟨⟨hcolon, hescape.imp_right fun hu => ?_⟩, ih hrest (h.resolve_left hc)⟩
      rw [beq_iff_eq] at hu ⊢
      rw [List.head?_append, hu, Option.some_or]

theorem isSheltered_append {front back : List Char} (hfront : isSheltered front = true)
    (hback : isSheltered back = true) : isSheltered (front ++ back) = true :=
  isSheltered_append_of_or hfront (.inr hback)

theorem isSheltered_append_of_any {front : List Char} (hfront : isSheltered front = true)
    (hopens : front.any isOpening = true) (back : List Char) : isSheltered (front ++ back) = true :=
  isSheltered_append_of_or hfront (.inl hopens)

/-- Whether a character is neither a colon nor a backslash. -/
def IsPlainChar (c : Char) : Prop := c ≠ ':' ∧ c ≠ '\\'

instance (c : Char) : Decidable (IsPlainChar c) := inferInstanceAs (Decidable (_ ∧ _))

theorem isPlainChar_of {p : Char → Bool} {c : Char} (h : p c = true) (hcolon : p ':' = false)
    (hbackslash : p '\\' = false) : IsPlainChar c := by
  constructor
  · rintro rfl
    exact Bool.false_ne_true (hcolon.symm.trans h)
  · rintro rfl
    exact Bool.false_ne_true (hbackslash.symm.trans h)

theorem isSheltered_of_forall {text : List Char} (h : ∀ c ∈ text, IsPlainChar c) :
    isSheltered text = true := by
  induction text with
  | nil => rfl
  | cons c rest ih =>
    obtain ⟨hcolon, hescape⟩ := h c List.mem_cons_self
    simp [isSheltered, hcolon, hescape, ih fun d hd => h d (List.mem_cons_of_mem _ hd)]

/-! ## Lexemes -/

/-- What is left of an escape is passed over before the word goes on. -/
theorem take_wordTail (escaped : Nat) (text : List Char) :
    text.take (wordTail escaped text) =
      text.take escaped ++ (text.drop escaped).take (wordTail 0 (text.drop escaped)) := by
  induction escaped generalizing text with
  | zero => simp
  | succ n ih =>
    cases text with
    | nil => simp
    | cons c rest => rw [wordTail, List.take_succ_cons, ih rest]; rfl

/-- An escape of a word is sheltered. -/
theorem isSheltered_wordEscape {text : List Char} {n : Nat} (h : wordEscape? text = some n) :
    isSheltered (text.take n) = true ∧ n ≠ 0 := by
  unfold wordEscape? at h
  split at h
  · rename_i rest
    simp only at h
    rw [Option.ite_none_right_eq_some, Option.some.injEq] at h
    obtain ⟨-, rfl⟩ := h
    exact ⟨@isSheltered_append_of_any ['\\', 'u', '\x7b'] (by decide) (by decide) _, Nat.succ_ne_zero _⟩
  · rename_i a b c d rest _
    rw [Option.ite_none_right_eq_some, Option.some.injEq] at h
    obtain ⟨hdigits, rfl⟩ := h
    simp only [Bool.and_eq_true] at hdigits
    obtain ⟨⟨⟨ha, hb⟩, hc⟩, hd⟩ := hdigits
    refine ⟨?_, by decide⟩
    have hsafe : isSheltered [a, b, c, d] = true := by
      refine isSheltered_of_forall fun x hx => ?_
      simp only [List.mem_cons, List.not_mem_nil, or_false] at hx
      rcases hx with rfl | rfl | rfl | rfl <;> exact isPlainChar_of ‹_› (by decide) (by decide)
    exact @isSheltered_append ['\\', 'u'] _ (by decide) hsafe
  · cases h

theorem isSheltered_wordTail (text : List Char) : isSheltered (text.take (wordTail 0 text)) = true := by
  induction hlength : text.length using Nat.strong_induction_on generalizing text with
  | _ n ih =>
    cases text with
    | nil => rfl
    | cons c rest =>
      rw [wordTail]
      split
      · rename_i hpart
        have hrest := ih rest.length (by rw [← hlength]; exact Nat.lt_succ_self _) rest rfl
        have hc : isSheltered [c] = true := by
          refine isSheltered_of_forall fun d hd => ?_
          rw [List.mem_singleton.1 hd]
          exact isPlainChar_of hpart (by decide) (by decide)
        exact isSheltered_append hc hrest
      · split
        · rename_i m hescape
          obtain ⟨hsheltered, hm⟩ := isSheltered_wordEscape hescape
          obtain ⟨k, rfl⟩ := Nat.exists_eq_succ_of_ne_zero hm
          have hrest := ih (rest.drop k).length (by
            rw [← hlength, List.length_drop, List.length_cons]
            omega) (rest.drop k) rfl
          rw [Nat.succ_sub_one, List.take_succ_cons, take_wordTail]
          exact isSheltered_append hsheltered hrest
        · rfl

theorem isSheltered_word {text : List Char} {n : Nat} (h : word? text = some n) :
    isSheltered (text.take n) = true := by
  cases text with
  | nil => cases h
  | cons c rest =>
    rw [word?] at h
    split at h
    · cases h
    · have htail := isSheltered_wordTail (c :: rest)
      split at h
      · cases h
      · cases h
        exact htail

theorem mem_take_digits {p : Char → Bool} {text : List Char} {c : Char}
    (h : c ∈ text.take (digits p text)) : p c = true ∨ c = '_' := by
  fun_induction digits p text with
  | case1 a d rest ha hd ih =>
    simp only [List.take_succ_cons, List.mem_cons] at h
    rcases h with rfl | rfl | h
    · exact .inl ha
    · exact .inr rfl
    · exact ih h
  | case2 a d rest ha hd =>
    obtain rfl : c = a := by simpa using h
    exact .inl ha
  | case3 => simp at h
  | case4 a rest _ ha ih =>
    rw [List.take_succ_cons, List.mem_cons] at h
    rcases h with rfl | h
    · exact .inl ha
    · exact ih h
  | case5 => simp at h
  | case6 => simp at h

theorem isPlainChar_of_or {a b c : Char} (h : (c == a || c == b) = true) (ha : IsPlainChar a)
    (hb : IsPlainChar b) : IsPlainChar c := by
  rw [Bool.or_eq_true, beq_iff_eq, beq_iff_eq] at h
  rcases h with rfl | rfl
  · exact ha
  · exact hb

theorem plain_digits {p : Char → Bool} (hcolon : p ':' = false) (hbackslash : p '\\' = false)
    (text : List Char) : ∀ c ∈ text.take (digits p text), IsPlainChar c := by
  intro c hc
  rcases mem_take_digits hc with h | rfl
  · exact isPlainChar_of h hcolon hbackslash
  · decide

theorem plain_isDigits (text : List Char) : ∀ c ∈ text.take (digits Char.isDigit text), IsPlainChar c :=
  plain_digits (by decide) (by decide) text

theorem plain_exponent (text : List Char) : ∀ c ∈ text.take (exponent text), IsPlainChar c := by
  unfold exponent
  split
  · rename_i e sign rest
    split
    · rename_i he
      have hplain : IsPlainChar e := isPlainChar_of_or he (by decide) (by decide)
      split
      · rename_i hsign
        have hsigned : IsPlainChar sign := isPlainChar_of_or hsign (by decide) (by decide)
        have hdigits := plain_isDigits rest
        cases hn : digits Char.isDigit rest with
        | zero => simp
        | succ n =>
          rw [hn] at hdigits
          exact List.forall_mem_cons.2 ⟨hplain, List.forall_mem_cons.2 ⟨hsigned, hdigits⟩⟩
      · have hdigits := plain_isDigits (sign :: rest)
        cases hn : digits Char.isDigit (sign :: rest) with
        | zero => simp
        | succ n =>
          rw [hn] at hdigits
          exact List.forall_mem_cons.2 ⟨hplain, hdigits⟩
    · simp
  · simp

theorem forall_take_add {P : Char → Prop} {text : List Char} {m n : Nat} (hfront : ∀ c ∈ text.take m, P c)
    (hback : ∀ c ∈ (text.drop m).take n, P c) : ∀ c ∈ text.take (m + n), P c := by
  rw [List.take_add]
  exact List.forall_mem_append.2 ⟨hfront, hback⟩

theorem plain_decimal {text : List Char} {n : Nat} (h : decimal? text = some n) :
    ∀ c ∈ text.take n, IsPlainChar c := by
  have hwhole := plain_isDigits text
  unfold decimal? at h
  simp only at h
  split at h
  · rename_i rest hrest
    rw [Option.ite_none_left_eq_some, Option.some.injEq] at h
    obtain ⟨-, rfl⟩ := h
    have hfraction := plain_isDigits rest
    rw [Nat.add_assoc, Nat.add_assoc]
    refine forall_take_add hwhole ?_
    rw [hrest, Nat.add_comm 1, List.take_succ_cons]
    exact List.forall_mem_cons.2 ⟨by decide, forall_take_add hfraction (plain_exponent _)⟩
  · rename_i rest hrest
    rw [Option.ite_none_left_eq_some, Option.some.injEq] at h
    obtain ⟨-, rfl⟩ := h
    refine forall_take_add hwhole ?_
    rw [hrest]
    exact List.forall_mem_cons.2 ⟨by decide, by simp⟩
  · rw [Option.ite_none_left_eq_some, Option.some.injEq] at h
    obtain ⟨-, rfl⟩ := h
    exact forall_take_add hwhole (plain_exponent _)

theorem plain_radixNumber {p : Char → Bool} (hcolon : p ':' = false) (hbackslash : p '\\' = false)
    {mark : Char} (hmark : IsPlainChar mark) {rest : List Char} {n : Nat}
    (h : radixNumber p rest = some n) : ∀ c ∈ ('0' :: mark :: rest).take n, IsPlainChar c := by
  have hdigits := plain_digits hcolon hbackslash rest
  unfold radixNumber at h
  cases hn : digits p rest with
  | zero => simp [hn] at h
  | succ m =>
    rw [hn] at h hdigits
    simp only [Option.some.injEq] at h
    rw [← h, Nat.add_right_comm, List.take_succ_cons, List.take_succ_cons]
    refine List.forall_mem_cons.2 ⟨by decide, List.forall_mem_cons.2 ⟨hmark, forall_take_add hdigits ?_⟩⟩
    split
    · rename_i hlast
      rw [beq_iff_eq] at hlast
      intro c hc
      obtain ⟨tail, htail⟩ := List.head?_eq_some_iff.1 hlast
      rw [htail] at hc
      obtain rfl : c = 'n' := by simpa using hc
      decide
    · simp

theorem plain_number {text : List Char} {n : Nat} (h : number? text = some n) :
    ∀ c ∈ text.take n, IsPlainChar c := by
  unfold number? at h
  split at h
  · rename_i x rest
    split at h
    · rename_i hx
      exact plain_radixNumber (by decide) (by decide) (isPlainChar_of_or hx (by decide) (by decide)) h
    · split at h
      · rename_i hx
        exact plain_radixNumber (by decide) (by decide) (isPlainChar_of_or hx (by decide) (by decide)) h
      · split at h
        · rename_i hx
          exact plain_radixNumber (by decide) (by decide) (isPlainChar_of_or hx (by decide) (by decide)) h
        · exact plain_decimal h
  · exact plain_decimal h

/-! ## Covers -/

/-- What is known of the texts that a rule reads. -/
inductive Cover where
  | bare
  | sheltered
  /-- Sheltered, with an opening character. -/
  | opened
  deriving DecidableEq

namespace Cover

def Holds (text : List Char) : Cover → Prop
  | bare => True
  | sheltered => isSheltered text = true
  | opened => isSheltered text = true ∧ text.any isOpening = true

/-- The cover of a fixed text. -/
def ofText (text : List Char) : Cover :=
  if isSheltered text then if text.any isOpening then opened else sheltered else bare

/-- The cover of what is read one after the other. -/
def andThen : Cover → Cover → Cover
  | bare, _ => bare
  | sheltered, second => second
  | opened, _ => opened

/-- The cover of what is read in one of two ways. -/
def orElse : Cover → Cover → Cover
  | bare, _ | _, bare => bare
  | opened, opened => opened
  | _, _ => sheltered

/-- The cover of what is read as often as possible. -/
def repeated : Cover → Cover
  | bare => bare
  | _ => sheltered

/-- Whether a cover says as much as another. -/
def Gives : Cover → Cover → Prop
  | _, bare | sheltered, sheltered | opened, sheltered | opened, opened => True
  | _, _ => False

variable {cover second third : Cover} {text gap more : List Char}

theorem Gives.trans (h : cover.Gives second) (h' : second.Gives third) : cover.Gives third := by
  cases cover <;> cases second <;> cases third <;> trivial

theorem Gives.ne_bare (h : cover.Gives second) (hne : second ≠ .bare) : cover ≠ .bare := by
  rintro rfl
  cases second <;> trivial

theorem gives_orElse_left (cover second : Cover) : cover.Gives (cover.orElse second) := by
  cases cover <;> cases second <;> trivial

theorem gives_orElse_right (cover second : Cover) : second.Gives (cover.orElse second) := by
  cases cover <;> cases second <;> trivial

theorem gives_repeated (cover : Cover) : cover.Gives cover.repeated := by
  cases cover <;> trivial

theorem holds_repeated_nil (cover : Cover) : cover.repeated.Holds [] := by
  cases cover <;> trivial

theorem andThen_repeated_repeated (cover second : Cover) :
    (cover.andThen second.repeated).andThen second.repeated = cover.andThen second.repeated := by
  cases cover <;> cases second <;> rfl

theorem repeated_andThen_repeated (cover : Cover) : cover.repeated.andThen cover.repeated = cover.repeated := by
  cases cover <;> rfl

theorem ne_bare_of_andThen (h : cover.andThen second ≠ .bare) : cover ≠ .bare := by
  rintro rfl
  exact h rfl

theorem gives_andThen_of_nil (h : cover.Holds []) (second : Cover) : second.Gives (cover.andThen second) := by
  cases cover with
  | bare => cases second <;> trivial
  | sheltered => cases second <;> trivial
  | opened => cases h.2

theorem holds_ofText (text : List Char) : (ofText text).Holds text := by
  unfold ofText
  split
  · rename_i hsheltered
    split
    · rename_i hopens
      exact ⟨hsheltered, hopens⟩
    · exact hsheltered
  · trivial

theorem Holds.weaken (h : cover.Holds text) (hgives : cover.Gives second) : second.Holds text := by
  cases cover <;> cases second <;> first | exact h | exact h.1 | trivial

theorem Holds.append (h : cover.Holds text) (hgap : second ≠ .bare → isSheltered gap = true)
    (hmore : second.Holds more) : (cover.andThen second).Holds (text ++ (gap ++ more)) := by
  cases cover with
  | bare => trivial
  | sheltered =>
    cases second with
    | bare => trivial
    | sheltered => exact isSheltered_append h (isSheltered_append (hgap (by decide)) hmore)
    | opened =>
      refine ⟨isSheltered_append h (isSheltered_append (hgap (by decide)) hmore.1), ?_⟩
      rw [List.any_append, List.any_append, hmore.2, Bool.or_true, Bool.or_true]
  | opened =>
    refine ⟨isSheltered_append_of_any h.1 h.2 _, ?_⟩
    rw [List.any_append, h.2, Bool.true_or]

/-- Nothing more is read. -/
theorem Holds.append_nil (h : cover.Holds text) (hsecond : second.Holds []) :
    (cover.andThen second).Holds text := by
  have hwhole : (cover.andThen second).Holds (text ++ ([] ++ [])) := h.append (fun _ => rfl) hsecond
  rwa [List.append_nil, List.append_nil] at hwhole

theorem Holds.isSheltered (h : cover.Holds text) (hcover : cover ≠ .bare) : isSheltered text = true := by
  cases cover with
  | bare => exact absurd rfl hcover
  | sheltered => exact h
  | opened => exact h.1

end Cover

/-- What is known of the tokens of a lexeme. -/
def Lexeme.cover : Lexeme → Cover
  | keyword text | symbol text _ => .ofText text.toList
  | identifier | word | wordExcept _ | privateName | number | quoted | regex | markupQuoted => .sheltered
  | templateText | markupText | markupName | hashbang => .bare

/-- A text that starts with an opening character is sheltered. -/
theorem isSheltered_cons {c : Char} (h : isOpening c = true) (rest : List Char) :
    isSheltered (c :: rest) = true := by
  rw [isSheltered, h, Bool.true_or]

theorem isSheltered_quote {mark : Char} (hmark : isOpening mark = true) {rest : List Char}
    {length : Option Nat} {n : Nat} (h : length.map (· + 1) = some n) :
    isSheltered ((mark :: rest).take n) = true := by
  obtain ⟨m, -, rfl⟩ := Option.map_eq_some_iff.1 h
  rw [List.take_succ_cons]
  exact isSheltered_cons hmark _

/-- A keyword is the text it stands for. -/
theorem Lexeme.take_of_keyword {s : String} {text : List Char} {n : Nat}
    (h : (Lexeme.keyword s).length? text = some n) : text.take n = s.toList := by
  rw [length?, keyword?] at h
  split at h
  · rename_i hstarts
    have hn : n = s.toList.length := by
      split at h
      · split at h
        · cases h
        · cases h
          rfl
      · cases h
        rfl
    rw [hn]
    exact take_of_startsWith hstarts
  · cases h

theorem Lexeme.holds_cover {lexeme : Lexeme} {text : List Char} {n : Nat}
    (h : lexeme.length? text = some n) : lexeme.cover.Holds (text.take n) := by
  cases lexeme with
  | keyword text' =>
    rw [take_of_keyword h]
    exact Cover.holds_ofText _
  | symbol s barred =>
    rw [take_of_symbol h]
    exact Cover.holds_ofText _
  | identifier | wordExcept words =>
    rw [length?] at h
    split at h
    · rename_i m hword
      rw [Option.ite_none_left_eq_some, Option.some.injEq] at h
      rw [← h.2]
      exact isSheltered_word hword
    · cases h
  | word => exact isSheltered_word h
  | privateName =>
    cases text with
    | nil => cases h
    | cons c rest =>
      by_cases hc : c = '#'
      · subst hc
        obtain ⟨m, hword, rfl⟩ := Option.map_eq_some_iff.1 h
        exact @isSheltered_append ['#'] _ (by decide) (isSheltered_word hword)
      · simp [length?, hc] at h
  | number => exact isSheltered_of_forall (plain_number h)
  | quoted =>
    rw [length?] at h
    unfold quoted? at h
    split at h
    · exact isSheltered_quote (by decide) h
    · exact isSheltered_quote (by decide) h
    · cases h
  | regex =>
    rw [length?] at h
    unfold regex? at h
    split at h
    · cases h
    · split at h
      · rename_i m hm
        cases h
        rw [Nat.add_right_comm, List.take_succ_cons]
        exact isSheltered_cons (by decide) _
      · cases h
    · cases h
  | markupQuoted =>
    rw [length?] at h
    unfold markupQuoted? at h
    split at h
    · exact isSheltered_quote (by decide) h
    · exact isSheltered_quote (by decide) h
    · cases h
  | _ => trivial

/-! ## Blanks and comments -/

theorem isSheltered_blanks (text : List Char) : isSheltered (text.take (blanks text)) = true := by
  induction text with
  | nil => rfl
  | cons c rest ih =>
    rw [blanks]
    split
    · rename_i hspace
      rw [List.take_succ_cons]
      refine @isSheltered_append [c] _ (isSheltered_of_forall fun d hd => ?_) ih
      rw [List.mem_singleton.1 hd]
      exact isPlainChar_of hspace (by decide) (by decide)
    · rfl

theorem isSheltered_comment {text : List Char} {n : Nat} (h : comment? false text = some n) :
    isSheltered (text.take n) = true := by
  unfold comment? at h
  split at h
  · cases h
    exact isSheltered_cons (by decide) _
  · obtain ⟨m, -, rfl⟩ := Option.map_eq_some_iff.1 h
    exact isSheltered_cons (by decide) _
  · cases h
  · cases h
  · cases h

/-- Whether a text stands between two places. -/
structure Leads (text : List Char) (a b : Cursor) : Prop where
  rest : a.rest = text ++ b.rest
  offset : b.offset = a.offset + Text.byteLength text

section Leads

variable {text more : List Char} {a b c : Cursor}

theorem Leads.refl (a : Cursor) : Leads [] a a := ⟨rfl, rfl⟩

theorem Leads.append (h : Leads text a b) (h' : Leads more b c) : Leads (text ++ more) a c where
  rest := by rw [h.rest, h'.rest, List.append_assoc]
  offset := by rw [h'.offset, h.offset, Text.byteLength_append, Nat.add_assoc]

theorem leads_skip (a : Cursor) (n : Nat) : Leads (a.rest.take n) a (a.skip n) where
  rest := by rw [Cursor.rest_skip, List.take_append_drop]
  offset := Cursor.offset_skip n a

theorem Leads.place {unit : List Char} (h : Leads text a b) (hplace : Cursor.At unit a) :
    Cursor.At unit b := by
  obtain ⟨front, hunit, hoffset⟩ := hplace
  exact ⟨front ++ text, by rw [hunit, h.rest, List.append_assoc],
    by rw [h.offset, hoffset, Text.byteLength_append]⟩

theorem Leads.slice_eq {unit : List Char} (h : Leads text a b) (hplace : Cursor.At unit a) :
    Text.slice unit ⟨a.offset, b.offset⟩ = text := by
  rw [Text.slice, h.offset, Nat.add_sub_cancel_left, hplace.dropBytes_eq, h.rest, Text.takeBytes_append]

end Leads

/-- Where no statement starts, the blanks and comments before a token are sheltered. -/
theorem Passes.exists_gap {a b : Cursor} {forest trees : List Tree} {atStatement : Bool}
    (h : Passes atStatement a forest b trees) :
    ∃ gap, Leads gap a b ∧ (atStatement = false → isSheltered gap = true) := by
  induction h with
  | refl => exact ⟨[], .refl _, fun _ => rfl⟩
  | blanks cursor _ => exact ⟨_, leads_skip cursor _, fun _ => isSheltered_blanks _⟩
  | comment _ hcomment =>
    refine ⟨_, leads_skip _ _, fun hplain => ?_⟩
    rw [hplain] at hcomment
    exact isSheltered_comment hcomment
  | trans _ _ ih ih' =>
    obtain ⟨gap, hgap, hsheltered⟩ := ih
    obtain ⟨gap', hgap', hsheltered'⟩ := ih'
    exact ⟨gap ++ gap', hgap.append hgap',
      fun hplain => isSheltered_append (hsheltered hplain) (hsheltered' hplain)⟩

end AssetAudit.Script
