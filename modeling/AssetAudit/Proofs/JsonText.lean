import AssetAudit.Json.Reader
import AssetAudit.Json.Writer

/-!
# Reading what was written

A value reads back if its text, at any level and before anything that does not go on with it, is read
as the value (`ReadsBack`). Texts and natural numbers do, and so do lists and objects of values that do
(`ReadsBack.list`, `ReadsBack.object`): the reader is given as many steps as the text has characters,
and every item or field takes at least one of them. So a value that reads back is parsed from the text
it is printed as (`ReadsBack.parse?_pretty`).
-/
namespace AssetAudit.Json

/-! ## Strings -/

theorem hexWord?_hexDigit : ∀ n < 32,
    hexWord? '0' '0' (hexDigit (n / 16)) (hexDigit (n % 16)) = some n := by
  decide

/-- What a character is written as is read as the character. -/
theorem readString_escapeChar (c : Char) (text : List Char) :
    readString (escapeChar c ++ text) = (readString text).map fun read => (c :: read.1, read.2) := by
  by_cases hspecial : c ∈ ['"', '\\', '\x08', '\x0c', '\n', '\r', '\t']
  · -- written as a backslash and a letter
    simp only [List.mem_cons, List.not_mem_nil, or_false] at hspecial
    rcases hspecial with rfl | rfl | rfl | rfl | rfl | rfl | rfl <;>
      simp [escapeChar, readString, escaped?]
  · simp only [List.mem_cons, List.not_mem_nil, or_false, not_or] at hspecial
    by_cases hcontrol : c.toNat < 0x20
    · have hword := hexWord?_hexDigit c.toNat hcontrol
      have hhigh : isHighSurrogate c.toNat = false := by simp [isHighSurrogate]; omega
      have hlow : isLowSurrogate c.toNat = false := by simp [isLowSurrogate]; omega
      have hescape : escapeChar c =
          ['\\', 'u', '0', '0', hexDigit (c.toNat / 16), hexDigit (c.toNat % 16)] := by
        simp [escapeChar, hspecial, hcontrol]
      rw [hescape]
      simp only [List.cons_append, List.nil_append]
      rw [readString]
      simp [hword, hhigh, hlow]
    · have hescape : escapeChar c = [c] := by simp [escapeChar, hspecial, hcontrol]
      rw [hescape, List.cons_append, List.nil_append, readString.eq_def]
      split
      · rename_i heq
        cases heq
      · rename_i heq
        exact absurd (List.cons.inj heq).1 hspecial.1
      · rename_i heq
        exact absurd (List.cons.inj heq).1 hspecial.2.1
      · rename_i heq
        exact absurd (List.cons.inj heq).1 hspecial.2.1
      · rename_i heq
        obtain ⟨rfl, rfl⟩ := List.cons.inj heq
        exact if_neg hcontrol

theorem readString_escaped (chars rest : List Char) :
    readString (chars.flatMap escapeChar ++ '"' :: rest) = some (chars, rest) := by
  induction chars with
  | nil => simp [readString]
  | cons c chars ih =>
    rw [List.flatMap_cons, List.append_assoc, readString_escapeChar, ih]
    rfl

/-! ## Numbers -/

/-- Whether a text does not go on with a number before it. -/
def Stops (rest : List Char) : Prop :=
  ∀ c ∈ rest.head?, c.isDigit = false ∧ c ≠ '.' ∧ c ≠ 'e' ∧ c ≠ 'E'

theorem stops_newline (level : Nat) (rest : List Char) : Stops (newline level ++ rest) := by
  simp [Stops, newline]

theorem stops_comma (rest : List Char) : Stops (',' :: rest) := by
  simp [Stops]

theorem head?_toDigits_ne_zero (n : Nat) (h : 0 < n) : (Nat.toDigits 10 n).head? ≠ some '0' := by
  have hdigit : ∀ n < 10, 0 < n → (Nat.toDigits 10 n).head? ≠ some '0' := by decide
  induction n using Nat.strongRecOn with
  | _ n ih =>
    by_cases hsmall : n < 10
    · exact hdigit n hsmall h
    · have hhead := ih (n / 10) (by omega) (by omega)
      rw [Nat.toDigits_of_base_le (by decide) (by omega)]
      cases hdigits : Nat.toDigits 10 (n / 10) with
      | nil => exact absurd hdigits Nat.toDigits_ne_nil
      | cons c digits =>
        rw [hdigits] at hhead
        exact hhead

theorem readDigits_append {digits rest : List Char} (hne : digits ≠ [])
    (hdigits : ∀ c ∈ digits, c.isDigit = true) (hrest : Stops rest) :
    readDigits (digits ++ rest) = some (digits, rest) := by
  have htake : rest.takeWhile Char.isDigit = [] ∧ rest.dropWhile Char.isDigit = rest := by
    cases rest with
    | nil => exact ⟨rfl, rfl⟩
    | cons c rest => simp [(hrest c rfl).1]
  unfold readDigits
  rw [List.takeWhile_append_of_pos hdigits, List.dropWhile_append_of_pos hdigits, htake.1, htake.2,
    List.append_nil]
  simp [hne]

theorem readInteger_toDigits (n : Nat) {rest : List Char} (hrest : Stops rest) :
    readInteger (Nat.toDigits 10 n ++ rest) = some (Nat.toDigits 10 n, rest) := by
  rcases Nat.eq_zero_or_pos n with rfl | hpos
  · cases rest with
    | nil => rfl
    | cons c rest => simp [Nat.toDigits_zero, readInteger, (hrest c rfl).1]
  · have hread := readDigits_append (Nat.toDigits_ne_nil (b := 10) (n := n))
      (fun c hc => Nat.isDigit_of_mem_toDigits (by decide) (by decide) hc) hrest
    have hhead := head?_toDigits_ne_zero n hpos
    cases hdigits : Nat.toDigits 10 n with
    | nil => exact absurd hdigits Nat.toDigits_ne_nil
    | cons c digits =>
      rw [hdigits] at hread hhead
      have hc : c ≠ '0' := fun h => hhead (by rw [h]; rfl)
      rw [List.cons_append, readInteger.eq_def]
      split
      · simp_all
      · exact hread

/-- A natural number is read up to where it stops. -/
theorem readNumber_toDigits (n : Nat) {rest : List Char} (hrest : Stops rest) :
    readNumber (Nat.toDigits 10 n ++ rest) = some (Nat.toDigits 10 n, rest) := by
  have hfraction : readFraction rest = some ([], rest) := by
    rw [readFraction.eq_def]
    split
    · exact absurd rfl (hrest _ rfl).2.1
    · rfl
  have hexponent : readExponent rest = some ([], rest) := by
    cases rest with
    | nil => rfl
    | cons c rest =>
      obtain ⟨-, -, hlower, hupper⟩ := hrest c rfl
      simp [readExponent, hlower, hupper]
  have hminus : '-' ∉ Nat.toDigits 10 n := fun hmem =>
    absurd (Nat.isDigit_of_mem_toDigits (by decide) (by decide) hmem) (by decide)
  unfold readNumber
  split
  rename_i sign unsigned hsign
  obtain ⟨rfl, rfl⟩ : sign = [] ∧ unsigned = Nat.toDigits 10 n ++ rest := by
    split at hsign
    · rename_i text htext
      cases hdigits : Nat.toDigits 10 n with
      | nil => exact absurd hdigits Nat.toDigits_ne_nil
      | cons c digits => simp_all
    · simp_all
  simp only [readInteger_toDigits n hrest, hfraction, hexponent, List.nil_append, List.append_nil]

theorem readNumber_eq_none {c : Char} (hdigit : c.isDigit = false) (hminus : c ≠ '-')
    (text : List Char) : readNumber (c :: text) = none := by
  have hinteger : readInteger (c :: text) = none := by
    rw [readInteger.eq_def]
    split
    · simp_all
    · simp [readDigits, hdigit]
  unfold readNumber
  split
  rename_i sign unsigned hsign
  obtain rfl : unsigned = c :: text := by
    split at hsign
    · simp_all
    · simp_all
  rw [hinteger]

/-! ## Blanks -/

theorem skipBlanks_newline (level : Nat) (text : List Char) :
    skipBlanks (newline level ++ text) = skipBlanks text := by
  refine List.dropWhile_append_of_pos fun c hc => ?_
  rcases List.mem_cons.1 hc with rfl | hc
  · rfl
  · rw [List.eq_of_mem_replicate hc]
    rfl

theorem skipBlanks_space (text : List Char) : skipBlanks (' ' :: text) = skipBlanks text := rfl

theorem skipBlanks_cons {c : Char} (h : isBlank c = false) (text : List Char) :
    skipBlanks (c :: text) = c :: text :=
  List.dropWhile_cons_of_neg (by simp [h])

/-! ## Values -/

/-- What starts like nothing else is read as a number. -/
theorem readValue_number {c : Char} (h : c ∉ ['"', '[', '\x7b', 'n', 't', 'f']) (fuel : Nat)
    (text : List Char) : readValue (fuel + 1) (c :: text) =
      (readNumber (c :: text)).map fun read => (.number (String.ofList read.1), read.2) := by
  rw [readValue.eq_def]
  simp only
  split <;> simp_all

/-- Whether the text of a value is read as the value, before anything that stops it. The reader takes no
more steps than the text has characters. -/
def ReadsBack (v : Value) : Prop :=
  ∀ fuel level rest, (writeValue level v).length ≤ fuel → Stops rest →
    readValue fuel (writeValue level v ++ rest) = some (v, rest)

/-- Neither a blank nor the end of a list is the start of a value. -/
theorem readValue_eq_none {c : Char} (h : c ∈ [' ', '\n', '\t', '\r', ']']) (fuel : Nat)
    (text : List Char) : readValue fuel (c :: text) = none := by
  have hc : c ∉ ['"', '[', '\x7b', 'n', 't', 'f'] ∧ c.isDigit = false ∧ c ≠ '-' := by
    simp only [List.mem_cons, List.not_mem_nil, or_false] at h
    rcases h with rfl | rfl | rfl | rfl | rfl <;> decide
  cases fuel with
  | zero => simp [readValue]
  | succ n => rw [readValue_number hc.1, readNumber_eq_none hc.2.1 hc.2.2, Option.map_none]

namespace ReadsBack

theorem exists_cons {v : Value} (h : ReadsBack v) (level : Nat) :
    ∃ c text, writeValue level v = c :: text ∧ isBlank c = false ∧ c ≠ ']' := by
  have hread := h _ level [] (Nat.le_refl _) (fun _ hc => by cases hc)
  rw [List.append_nil] at hread
  cases htext : writeValue level v with
  | nil => simp [htext, readValue] at hread
  | cons c text =>
    have hstart : c ∉ [' ', '\n', '\t', '\r', ']'] := by
      intro hmem
      rw [htext, readValue_eq_none hmem] at hread
      cases hread
    refine ⟨c, text, rfl, ?_, ?_⟩
    · simp_all [isBlank]
    · simp_all

theorem text (s : String) : ReadsBack (.text s) := by
  intro fuel level rest hfuel _
  cases fuel with
  | zero => simp [writeValue, writeString] at hfuel
  | succ n =>
    simp only [writeValue, writeString, List.cons_append, List.append_assoc, List.nil_append,
      readValue]
    rw [readString_escaped]
    simp

theorem ofNat (n : Nat) : ReadsBack (.ofNat n) := by
  intro fuel level rest hfuel hrest
  have hread := readNumber_toDigits n hrest
  rw [Value.ofNat, writeValue, Nat.toString_eq_ofList_toDigits, String.toList_ofList] at hfuel ⊢
  cases hdigits : Nat.toDigits 10 n with
  | nil => exact absurd hdigits Nat.toDigits_ne_nil
  | cons c digits =>
    have hdigit : c.isDigit = true :=
      Nat.isDigit_of_mem_toDigits (b := 10) (n := n) (by decide) (by decide)
        (hdigits ▸ List.mem_cons_self)
    have hc : c ∉ ['"', '[', '\x7b', 'n', 't', 'f'] := by
      simp only [List.mem_cons, List.not_mem_nil, or_false]
      rintro (rfl | rfl | rfl | rfl | rfl | rfl) <;> cases hdigit
    rw [hdigits] at hread hfuel
    cases fuel with
    | zero => simp at hfuel
    | succ m =>
      rw [List.cons_append] at hread ⊢
      rw [readValue_number hc, hread]
      rfl

/-- The items of a list, from the first one to the end of the list. -/
theorem readItems_write {items : List Value} : ∀ {item : Value}, ReadsBack item →
    (∀ other ∈ items, ReadsBack other) → ∀ fuel level outer rest,
    (writeValue level item ++ writeItems level items).length < fuel →
    readItems fuel (writeValue level item ++ (writeItems level items ++
      (newline outer ++ ']' :: rest))) = some (item :: items, rest) := by
  induction items with
  | nil =>
    intro item hitem _ fuel level outer rest hfuel
    obtain ⟨n, rfl⟩ : ∃ n, fuel = n + 1 := ⟨fuel - 1, by omega⟩
    rw [List.length_append] at hfuel
    rw [readItems, writeItems, List.nil_append,
      hitem n level _ (by omega) (stops_newline outer _)]
    simp only [skipBlanks_newline, skipBlanks_cons (show isBlank ']' = false from rfl)]
  | cons next items ih =>
    intro item hitem hitems fuel level outer rest hfuel
    obtain ⟨n, rfl⟩ : ∃ n, fuel = n + 1 := ⟨fuel - 1, by omega⟩
    have hnext := hitems next List.mem_cons_self
    obtain ⟨c, text, htext, hblank, -⟩ := hnext.exists_cons level
    simp only [writeItems, List.length_append, List.length_cons] at hfuel
    have hrest := ih hnext (fun other hother => hitems other (List.mem_cons_of_mem _ hother)) n level
      outer rest (by rw [List.length_append]; omega)
    rw [readItems, hitem n level _ (by omega) (by rw [writeItems, List.cons_append]; exact stops_comma _)]
    simp only [writeItems, List.cons_append, List.append_assoc,
      skipBlanks_cons (show isBlank ',' = false from rfl), skipBlanks_newline]
    rw [htext] at hrest ⊢
    rw [List.cons_append] at hrest ⊢
    rw [skipBlanks_cons hblank, hrest]
    rfl

theorem list {items : List Value} (h : ∀ item ∈ items, ReadsBack item) : ReadsBack (.list items) := by
  intro fuel level rest hfuel _
  cases items with
  | nil =>
    obtain ⟨n, rfl⟩ : ∃ n, fuel = n + 1 := ⟨fuel - 1, by simp [writeValue] at hfuel; omega⟩
    simp [writeValue, readValue, skipBlanks_cons (show isBlank ']' = false from rfl)]
  | cons item items =>
    have hitem := h item List.mem_cons_self
    obtain ⟨c, text, htext, hblank, hend⟩ := hitem.exists_cons (level + 1)
    simp only [writeValue, List.length_append, List.length_cons, List.length_nil] at hfuel
    obtain ⟨n, rfl⟩ : ∃ n, fuel = n + 1 := ⟨fuel - 1, by omega⟩
    have hread := readItems_write hitem (fun other hother => h other (List.mem_cons_of_mem _ hother))
      n (level + 1) level rest (by rw [List.length_append]; omega)
    simp only [writeValue, List.cons_append, List.append_assoc, List.nil_append, readValue,
      skipBlanks_newline]
    rw [htext] at hread ⊢
    rw [List.cons_append] at hread ⊢
    rw [skipBlanks_cons hblank]
    split
    · simp_all
    · rw [hread]
      rfl

/-- The fields of an object, from the first key to the end of the object. -/
theorem readFields_write {fields : List (String × Value)} : ∀ (key : String) {v : Value}, ReadsBack v →
    (∀ field ∈ fields, ReadsBack field.2) → ∀ fuel level outer rest,
    (writeString key ++ ':' :: ' ' :: (writeValue level v ++ writeFields level fields)).length < fuel →
    readFields fuel (writeString key ++ ':' :: ' ' :: (writeValue level v ++
      (writeFields level fields ++ (newline outer ++ '\x7d' :: rest)))) =
        some ((key, v) :: fields, rest) := by
  induction fields with
  | nil =>
    intro key v hv _ fuel level outer rest hfuel
    obtain ⟨n, rfl⟩ : ∃ n, fuel = n + 1 := ⟨fuel - 1, by omega⟩
    obtain ⟨c, text, htext, hblank, -⟩ := hv.exists_cons level
    have hread := hv n level (newline outer ++ '\x7d' :: rest)
      (by simp only [List.length_append, List.length_cons] at hfuel; omega) (stops_newline outer _)
    simp only [writeString, List.cons_append, List.append_assoc, List.nil_append, readFields,
      readString_escaped, skipBlanks_cons (show isBlank ':' = false from rfl), writeFields]
    rw [skipBlanks_space, htext, List.cons_append, skipBlanks_cons hblank, ← List.cons_append, ← htext,
      hread]
    simp only [skipBlanks_newline, skipBlanks_cons (show isBlank '\x7d' = false from rfl),
      String.ofList_toList]
  | cons next fields ih =>
    obtain ⟨nextKey, next⟩ := next
    intro key v hv hfields fuel level outer rest hfuel
    obtain ⟨n, rfl⟩ : ∃ n, fuel = n + 1 := ⟨fuel - 1, by omega⟩
    obtain ⟨c, text, htext, hblank, -⟩ := hv.exists_cons level
    simp only [writeFields, List.length_append, List.length_cons] at hfuel
    have hread := hv n level (writeFields level ((nextKey, next) :: fields) ++
      (newline outer ++ '\x7d' :: rest)) (by omega)
      (by rw [writeFields, List.cons_append]; exact stops_comma _)
    have hrest := ih nextKey (hfields _ List.mem_cons_self)
      (fun field hfield => hfields field (List.mem_cons_of_mem _ hfield)) n level outer rest
      (by simp only [List.length_append, List.length_cons]; omega)
    simp only [writeString, List.cons_append, List.append_assoc, List.nil_append, readFields,
      readString_escaped, skipBlanks_cons (show isBlank ':' = false from rfl)]
    rw [skipBlanks_space, htext, List.cons_append, skipBlanks_cons hblank, ← List.cons_append, ← htext,
      hread]
    simp only [writeFields, writeString, List.cons_append, List.append_assoc, List.nil_append,
      skipBlanks_cons (show isBlank ',' = false from rfl), skipBlanks_newline,
      skipBlanks_cons (show isBlank '"' = false from rfl)] at hrest ⊢
    rw [hrest, String.ofList_toList]
    rfl

theorem object {fields : List (String × Value)} (h : ∀ field ∈ fields, ReadsBack field.2) :
    ReadsBack (.object fields) := by
  intro fuel level rest hfuel _
  cases fields with
  | nil =>
    obtain ⟨n, rfl⟩ : ∃ n, fuel = n + 1 := ⟨fuel - 1, by simp [writeValue] at hfuel; omega⟩
    simp [writeValue, readValue, skipBlanks_cons (show isBlank '\x7d' = false from rfl)]
  | cons field fields =>
    obtain ⟨key, v⟩ := field
    simp only [writeValue, List.length_append, List.length_cons, List.length_nil] at hfuel
    obtain ⟨n, rfl⟩ : ∃ n, fuel = n + 1 := ⟨fuel - 1, by omega⟩
    have hread := readFields_write key (h _ List.mem_cons_self)
      (fun other hother => h other (List.mem_cons_of_mem _ hother)) n (level + 1) level rest
      (by simp only [List.length_append, List.length_cons]; omega)
    simp only [writeValue, writeString, List.cons_append, List.append_assoc, List.nil_append, readValue,
      skipBlanks_newline, skipBlanks_cons (show isBlank '"' = false from rfl)] at hread ⊢
    split
    · simp_all
    · rw [hread]
      rfl

/-- A value that reads back is parsed from the text it is printed as. -/
theorem parse?_pretty {v : Value} (h : ReadsBack v) : parse? (pretty v) = some v := by
  obtain ⟨c, text, htext, hblank, -⟩ := h.exists_cons 0
  have hread := h ((writeValue 0 v).length + 1) 0 [] (by omega) (fun _ hc => by cases hc)
  rw [List.append_nil] at hread
  unfold parse? pretty
  rw [String.toList_ofList]
  have hskip : skipBlanks (writeValue 0 v) = writeValue 0 v := by
    rw [htext]
    exact skipBlanks_cons hblank text
  simp only [hskip, hread]
  rfl

end ReadsBack
end AssetAudit.Json
