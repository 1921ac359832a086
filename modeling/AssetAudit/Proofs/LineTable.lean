import AssetAudit.Proofs.PlaceOrder
import Mathlib.Data.List.DropRight

/-!
# Lines and columns

The line of a place between two characters is one more than the line feeds before it, and its column one
more than the characters behind the last of them (`positionAt_eq`). An offset past the end has the place
of the end (`positionAt_min`).

The same places are found in the table of the offsets at which lines start: the last start that does not
lie behind an offset is that of its line, and the characters from there on are counted for its column.
`lookup?` does this and could fail, if the table had no such start; it never does, and gives the place of
`positionAt` for every offset (`lookup?_eq`).
-/
namespace AssetAudit.Text

/-! ## Counting -/

/-- The characters behind the last line feed. -/
def lastLine (text : List Char) : List Char := text.rtakeWhile (· ≠ '\n')

/-- The characters up to the last line feed. -/
def linesBefore (text : List Char) : List Char := text.rdropWhile (· ≠ '\n')

theorem linesBefore_append_lastLine (text : List Char) : linesBefore text ++ lastLine text = text :=
  List.rdropWhile_append_rtakeWhile

theorem lastLine_concat (text : List Char) (c : Char) :
    lastLine (text ++ [c]) = if c = '\n' then [] else lastLine text ++ [c] := by
  rw [lastLine, List.rtakeWhile_concat]
  by_cases hc : c = '\n' <;> simp [hc, lastLine]

theorem linesBefore_concat (text : List Char) (c : Char) :
    linesBefore (text ++ [c]) = if c = '\n' then text ++ [c] else linesBefore text := by
  rw [linesBefore, List.rdropWhile_concat]
  by_cases hc : c = '\n' <;> simp [hc, linesBefore]

theorem origin_after (front : List Char) :
    Position.origin.after front = ⟨1 + front.count '\n', 1 + (lastLine front).length⟩ := by
  induction front using List.reverseRecOn with
  | nil => rfl
  | append_singleton front c ih =>
    rw [Position.after_append, ih, lastLine_concat, List.count_append]
    by_cases hc : c = '\n' <;> simp [Position.after, Position.advance, hc, Nat.add_assoc]

/-- An offset past the end has the place of the end. -/
theorem positionAt_min (text : List Char) (offset : Nat) :
    positionAt text (min offset (byteLength text)) = positionAt text offset := by
  rcases Nat.le_total offset (byteLength text) with hle | hle
  · rw [Nat.min_eq_left hle]
  · obtain ⟨n, rfl⟩ := Nat.exists_eq_add_of_le hle
    rw [Nat.min_eq_right hle]
    have hend := positionFrom_append Position.origin text [] 0
    have hpast := positionFrom_append Position.origin text [] n
    rw [List.append_nil] at hend hpast
    exact hend.trans hpast.symm

theorem positionAt_eq {text : List Char} {offset : Nat} (h : IsBoundary text offset) :
    positionAt text offset = ⟨1 + (takeBytes text offset).count '\n',
      1 + (lastLine (takeBytes text offset)).length⟩ := by
  obtain ⟨front, ⟨rest, rfl⟩, rfl⟩ := h
  rw [takeBytes_append, positionAt_append, origin_after]

/-! ## The table of line starts -/

/-- The offsets at which lines start behind line feeds of a text, if the text starts at `offset`. -/
def lineStartsFrom (offset : Nat) : List Char → List Nat
  | [] => []
  | c :: rest =>
    if c = '\n' then (offset + 1) :: lineStartsFrom (offset + c.utf8Size) rest
    else lineStartsFrom (offset + c.utf8Size) rest

/-- The offsets at which the lines of a text start. -/
def lineStarts (text : List Char) : List Nat := 0 :: lineStartsFrom 0 text

theorem lineStartsFrom_append : ∀ (offset : Nat) (front rest : List Char),
    lineStartsFrom offset (front ++ rest) =
      lineStartsFrom offset front ++ lineStartsFrom (offset + byteLength front) rest
  | _, [], _ => by simp [lineStartsFrom, byteLength]
  | offset, c :: front, rest => by
    rw [List.cons_append, lineStartsFrom, lineStartsFrom, byteLength, ← Nat.add_assoc,
      lineStartsFrom_append (offset + c.utf8Size) front rest]
    split <;> rfl

theorem lineStarts_append (front rest : List Char) :
    lineStarts (front ++ rest) = lineStarts front ++ lineStartsFrom (byteLength front) rest := by
  rw [lineStarts, lineStartsFrom_append, Nat.zero_add]
  rfl

theorem length_lineStartsFrom : ∀ (offset : Nat) (text : List Char),
    (lineStartsFrom offset text).length = text.count '\n'
  | _, [] => rfl
  | offset, c :: rest => by
    have ih := length_lineStartsFrom (offset + c.utf8Size) rest
    by_cases hc : c = '\n'
    · rw [lineStartsFrom, if_pos hc, List.length_cons, ih, hc, List.count_cons_self]
    · rw [lineStartsFrom, if_neg hc, ih, List.count_cons_of_ne hc]

theorem length_lineStarts (text : List Char) : (lineStarts text).length = text.count '\n' + 1 := by
  rw [lineStarts, List.length_cons, length_lineStartsFrom]

theorem utf8Size_lineFeed : '\n'.utf8Size = 1 := rfl

theorem mem_lineStartsFrom_cons {offset : Nat} {c : Char} {rest : List Char} {start : Nat}
    (h : start ∈ lineStartsFrom offset (c :: rest)) :
    start = offset + c.utf8Size ∨ start ∈ lineStartsFrom (offset + c.utf8Size) rest := by
  by_cases hc : c = '\n'
  · rw [lineStartsFrom, if_pos hc, List.mem_cons] at h
    rwa [hc, utf8Size_lineFeed] at h ⊢
  · rw [lineStartsFrom, if_neg hc] at h
    exact .inr h

theorem bounds_of_mem_lineStartsFrom : ∀ {offset : Nat} {text : List Char} {start : Nat},
    start ∈ lineStartsFrom offset text → offset < start ∧ start ≤ offset + byteLength text
  | offset, c :: rest, start, h => by
    have hsize := c.utf8Size_pos
    rw [byteLength]
    rcases mem_lineStartsFrom_cons h with rfl | h
    · omega
    · have := bounds_of_mem_lineStartsFrom h
      omega

/-- The lines behind a character start behind it. -/
theorem le_of_mem_lineStartsFrom {offset : Nat} {c : Char} {rest : List Char} {start : Nat}
    (h : start ∈ lineStartsFrom offset (c :: rest)) : offset + c.utf8Size ≤ start := by
  rcases mem_lineStartsFrom_cons h with rfl | h
  · exact Nat.le_refl _
  · exact Nat.le_of_lt (bounds_of_mem_lineStartsFrom h).1

theorem le_of_mem_lineStarts {text : List Char} {start : Nat} (h : start ∈ lineStarts text) :
    start ≤ byteLength text := by
  rcases List.mem_cons.1 h with rfl | h
  · exact Nat.zero_le _
  · simpa using (bounds_of_mem_lineStartsFrom h).2

theorem pairwise_lineStartsFrom : ∀ (offset : Nat) (text : List Char),
    (lineStartsFrom offset text).Pairwise (· < ·)
  | _, [] => .nil
  | offset, c :: rest => by
    have ih := pairwise_lineStartsFrom (offset + c.utf8Size) rest
    by_cases hc : c = '\n'
    · rw [lineStartsFrom, if_pos hc]
      refine .cons ?_ ih
      intro start hstart
      have hbehind := (bounds_of_mem_lineStartsFrom hstart).1
      rwa [hc, utf8Size_lineFeed] at hbehind
    · rwa [lineStartsFrom, if_neg hc]

/-- Line starts stand in their order, so that they can be searched. -/
theorem pairwise_lineStarts (text : List Char) : (lineStarts text).Pairwise (· < ·) :=
  .cons (fun _ hstart => (bounds_of_mem_lineStartsFrom hstart).1) (pairwise_lineStartsFrom 0 text)

/-- The last line of a text starts behind its last line feed. -/
theorem getLast?_lineStarts (text : List Char) :
    (lineStarts text).getLast? = some (byteLength (linesBefore text)) := by
  induction text using List.reverseRecOn with
  | nil => rfl
  | append_singleton text c ih =>
    rw [lineStarts_append, linesBefore_concat, lineStartsFrom]
    by_cases hc : c = '\n'
    · rw [if_pos hc, if_pos hc, List.getLast?_append, byteLength_append, hc]
      rfl
    · rw [if_neg hc, if_neg hc, lineStartsFrom, List.append_nil, ih]

/-! ## Looking up -/

theorem takeBytes_isPrefix : ∀ (text : List Char) (n : Nat), takeBytes text n <+: text
  | text, 0 => by simp [takeBytes]
  | [], _ + 1 => by simp [takeBytes]
  | c :: rest, n + 1 => by
    rw [takeBytes, List.prefix_cons_inj]
    exact takeBytes_isPrefix rest _

theorem isBoundary_iff {text : List Char} {offset : Nat} :
    IsBoundary text offset ↔ byteLength (takeBytes text offset) = offset := by
  constructor
  · rintro ⟨front, ⟨rest, rfl⟩, rfl⟩
    rw [takeBytes_append]
  · intro h
    exact ⟨takeBytes text offset, takeBytes_isPrefix text offset, h.symm⟩

instance (text : List Char) (offset : Nat) : Decidable (IsBoundary text offset) :=
  decidable_of_iff _ isBoundary_iff.symm

instance (text : List Char) (span : Span) : Decidable (Fits text span) :=
  decidable_of_iff
    (IsBoundary text span.start ∧ IsBoundary text span.stop ∧ span.start ≤ span.stop)
    ⟨fun h => ⟨h.1, h.2.1, h.2.2⟩, fun h => ⟨h.start, h.stop, h.le⟩⟩

/-- The characters of a span, if it is a stretch of the text that cuts none. -/
def slice? (text : List Char) (span : Span) : Option (List Char) :=
  if Fits text span then some (slice text span) else none

/-- The place of an offset by the table of line starts: its line is the last one that starts no later, if
there is one, and up to an offset inside a character no column is counted. -/
def lookup? (text : List Char) (offset : Nat) : Option Position :=
  let offset := min offset (byteLength text)
  match ((lineStarts text).takeWhile (· ≤ offset)).length with
  | 0 => none
  | index + 1 => (lineStarts text)[index]?.map fun start =>
      ⟨index + 1, ((slice? text ⟨start, offset⟩).map List.length).getD 0 + 1⟩

/-- Every offset in a text lies behind some characters and inside the next one or before it. -/
theorem exists_cut : ∀ (text : List Char) (offset : Nat), offset ≤ byteLength text →
    ∃ front rest, text = front ++ rest ∧ byteLength front ≤ offset ∧
      ∀ c ∈ rest.head?, offset < byteLength front + c.utf8Size
  | [], _, _ => ⟨[], [], rfl, Nat.zero_le _, by simp⟩
  | c :: text, offset, hle => by
    by_cases hinside : offset < c.utf8Size
    · exact ⟨[], c :: text, rfl, Nat.zero_le _, by simpa [byteLength] using hinside⟩
    · obtain ⟨n, rfl⟩ := Nat.exists_eq_add_of_le (Nat.le_of_not_lt hinside)
      rw [byteLength] at hle
      obtain ⟨front, rest, rfl, hfront, hrest⟩ := exists_cut text n (by omega)
      refine ⟨c :: front, rest, rfl, by rw [byteLength]; omega, ?_⟩
      intro d hd
      have := hrest d hd
      rw [byteLength]
      omega

/-- The lines that start no later than an offset are those of the characters before it. -/
theorem takeWhile_lineStarts {front rest : List Char} {offset : Nat} (hfront : byteLength front ≤ offset)
    (hrest : ∀ c ∈ rest.head?, offset < byteLength front + c.utf8Size) :
    (lineStarts (front ++ rest)).takeWhile (· ≤ offset) = lineStarts front := by
  have hbefore : ∀ start ∈ lineStarts front, decide (start ≤ offset) = true := by
    intro start hstart
    exact decide_eq_true (Nat.le_trans (le_of_mem_lineStarts hstart) hfront)
  have hbehind : (lineStartsFrom (byteLength front) rest).takeWhile (· ≤ offset) = [] := by
    cases rest with
    | nil => rfl
    | cons c rest =>
      have hc := hrest c rfl
      cases hstarts : lineStartsFrom (byteLength front) (c :: rest) with
      | nil => rfl
      | cons start starts =>
        have hstart := le_of_mem_lineStartsFrom (hstarts ▸ List.mem_cons_self)
        exact List.takeWhile_cons_of_neg (by simpa using Nat.lt_of_lt_of_le hc hstart)
  rw [lineStarts_append, List.takeWhile_append_of_pos hbefore, hbehind, List.append_nil]

/-- Inside a character there is no boundary. -/
theorem not_isBoundary_inside {front rest : List Char} {c : Char} {offset : Nat}
    (hfront : byteLength front < offset) (hinside : offset < byteLength front + c.utf8Size) :
    ¬ IsBoundary (front ++ c :: rest) offset := by
  intro h
  obtain ⟨body, hbody, rfl⟩ := h.exists_append (List.prefix_append front _) (Nat.le_of_lt hfront)
  rw [List.prefix_append_right_inj] at hbody
  rw [byteLength_append] at hfront hinside
  cases body with
  | nil => simp [byteLength] at hfront
  | cons d body =>
    obtain ⟨rfl, -⟩ := List.cons_prefix_cons.1 hbody
    rw [byteLength] at hinside
    omega

/-- From the start of its last line to its end a text has the characters of that line. -/
theorem slice?_lastLine (front rest : List Char) :
    slice? (front ++ rest) ⟨byteLength (linesBefore front), byteLength front⟩ =
      some (lastLine front) := by
  have hslice := slice_append (linesBefore front) (lastLine front) rest
  have hfits : Fits (linesBefore front ++ lastLine front ++ rest) ⟨byteLength (linesBefore front),
      byteLength (linesBefore front ++ lastLine front)⟩ := by
    refine ⟨⟨linesBefore front, ?_, rfl⟩, ⟨_, List.prefix_append _ _, rfl⟩, ?_⟩
    · rw [List.append_assoc]
      exact List.prefix_append _ _
    · rw [byteLength_append]
      exact Nat.le_add_right _ _
  rw [linesBefore_append_lastLine] at hslice hfits
  rw [slice?, if_pos hfits, hslice]

theorem positionAt_inside {front rest : List Char} {c : Char} {offset : Nat}
    (hfront : byteLength front < offset) (hinside : offset < byteLength front + c.utf8Size) :
    positionAt (front ++ c :: rest) offset = ⟨1 + front.count '\n', 1⟩ := by
  obtain ⟨n, rfl⟩ := Nat.exists_eq_add_of_le (Nat.le_of_lt hfront)
  rw [positionAt, positionFrom_append, positionFrom, if_neg (by omega), if_pos (by omega),
    origin_after]

/-- The table has a line for every offset, and gives its place. -/
theorem lookup?_eq (text : List Char) (offset : Nat) :
    lookup? text offset = some (positionAt text offset) := by
  rw [← positionAt_min, lookup?]
  have hle := Nat.min_le_right offset (byteLength text)
  generalize min offset (byteLength text) = offset at hle ⊢
  obtain ⟨front, rest, rfl, hfront, hrest⟩ := exists_cut text offset hle
  have hstart : (lineStarts (front ++ rest))[front.count '\n']? =
      some (byteLength (linesBefore front)) := by
    have hlast := getLast?_lineStarts front
    rw [List.getLast?_eq_getElem?, length_lineStarts, Nat.add_sub_cancel] at hlast
    rw [lineStarts_append, List.getElem?_append_left (by rw [length_lineStarts]; omega), hlast]
  simp only [takeWhile_lineStarts hfront hrest, length_lineStarts, hstart, Option.map_some]
  rcases Nat.eq_or_lt_of_le hfront with rfl | hfront
  · rw [slice?_lastLine, positionAt_append, origin_after, Nat.add_comm 1, Nat.add_comm 1]
    rfl
  · cases rest with
    | nil =>
      rw [List.append_nil] at hle
      omega
    | cons c rest =>
      -- the offset cuts `c`, so the stretch from the start of the line is none of the text
      have hinside := hrest c rfl
      have hcut : slice? (front ++ c :: rest) ⟨byteLength (linesBefore front), offset⟩ = none :=
        if_neg fun hfits => not_isBoundary_inside hfront hinside hfits.stop
      rw [hcut, positionAt_inside hfront hinside, Nat.add_comm 1]
      rfl

/-! ## Places as offsets -/

variable {text : List Char} {a b : Nat}

theorem before_positionAt_iff (ha : IsBoundary text a) (hb : IsBoundary text b) :
    (positionAt text a).Before (positionAt text b) ↔ a < b := by
  refine ⟨fun h => ?_, before_positionAt ha hb⟩
  by_contra hle
  exact not_before_positionAt hb ha (Nat.le_of_not_lt hle) h

theorem positionAt_inj (ha : IsBoundary text a) (hb : IsBoundary text b)
    (h : positionAt text a = positionAt text b) : a = b := by
  rcases Nat.lt_trichotomy a b with hlt | heq | hlt
  · exact absurd (h ▸ before_positionAt ha hb hlt) (Position.before_irrefl _)
  · exact heq
  · exact absurd (h ▸ before_positionAt hb ha hlt) (Position.before_irrefl _)

/-- The place of an offset between two characters counts the line feeds before it and the characters behind
the last of them. Past the end it is the place of the end. In between, places are in the order of the
offsets and tell them. The table of line starts is in order and gives the place of every offset. -/
theorem places_embed_offsets (text : List Char) :
    (∀ offset, IsBoundary text offset → positionAt text offset =
      ⟨1 + (takeBytes text offset).count '\n', 1 + (lastLine (takeBytes text offset)).length⟩) ∧
    (∀ offset, byteLength text ≤ offset →
      positionAt text offset = positionAt text (byteLength text)) ∧
    (∀ a b, IsBoundary text a → IsBoundary text b →
      ((positionAt text a).Before (positionAt text b) ↔ a < b) ∧
      (positionAt text a = positionAt text b → a = b)) ∧
    (lineStarts text).Pairwise (· < ·) ∧
    (∀ offset, lookup? text offset = some (positionAt text offset)) := by
  refine ⟨fun _ => positionAt_eq, ?_, ?_, pairwise_lineStarts text, lookup?_eq text⟩
  · intro offset hle
    rw [← positionAt_min, Nat.min_eq_right hle]
  · intro a b ha hb
    exact ⟨before_positionAt_iff ha hb, positionAt_inj ha hb⟩

/-- The character before the second line feed takes two bytes and one column. -/
theorem accented_line_places :
    let text := "ab\ncdé\nf".toList
    IsBoundary text 7 ∧ IsBoundary text 8 ∧ positionAt text 7 = ⟨2, 4⟩ ∧ positionAt text 8 = ⟨3, 1⟩ ∧
      (positionAt text 7).Before (positionAt text 8) ∧ byteLength text ≤ 99 ∧
      positionAt text 99 = positionAt text (byteLength text) ∧
      lookup? text 6 = some (positionAt text 6) := by
  intro text
  obtain ⟨hplace, hend, horder, -, htable⟩ := places_embed_offsets text
  have hstop : IsBoundary text 7 := by decide +kernel
  have hnext : IsBoundary text 8 := by decide +kernel
  have hpast : byteLength text ≤ 99 := by decide +kernel
  exact ⟨hstop, hnext, (hplace 7 hstop).trans (by decide +kernel),
    (hplace 8 hnext).trans (by decide +kernel), (horder 7 8 hstop hnext).1.2 (by decide), hpast,
    hend 99 hpast, htable 6⟩

end AssetAudit.Text
