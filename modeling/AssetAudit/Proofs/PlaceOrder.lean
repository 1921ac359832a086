import AssetAudit.Proofs.CursorPlace

/-!
# Places in the order of a text

The place of an offset between two characters is where the characters before it lead
(`positionAt_append`), and every character leads to a later place (`before_advance`). So places stand
in the order of the text, and a stretch of a text can be told from the places of its ends alone:
`between` gathers the characters from one place up to another, and for a span that cuts no character
these are the characters of the span (`between_locate`).
-/
namespace AssetAudit

namespace Position

variable {p q r : Position}

/-- Whether a place comes before another in reading order. -/
def Before (p q : Position) : Prop := p.line < q.line ∨ p.line = q.line ∧ p.column < q.column

instance (p q : Position) : Decidable (p.Before q) :=
  inferInstanceAs (Decidable (p.line < q.line ∨ p.line = q.line ∧ p.column < q.column))

theorem Before.trans (h : p.Before q) (h' : q.Before r) : p.Before r := by
  unfold Before at *
  omega

theorem Before.asymm (h : p.Before q) : ¬ q.Before p := by
  unfold Before at *
  omega

theorem before_irrefl (p : Position) : ¬ p.Before p := fun h => h.asymm h

theorem before_advance (p : Position) (c : Char) : p.Before (p.advance c) := by
  unfold advance Before
  split
  · exact Or.inl (Nat.lt_succ_self _)
  · exact Or.inr ⟨rfl, Nat.lt_succ_self _⟩

/-- The place behind some characters. -/
def after (p : Position) (chars : List Char) : Position := chars.foldl advance p

theorem after_append (p : Position) (a b : List Char) : p.after (a ++ b) = (p.after a).after b :=
  List.foldl_append

theorem before_after (p : Position) : ∀ {chars : List Char}, chars ≠ [] → p.Before (p.after chars)
  | [c], _ => before_advance p c
  | c :: _ :: _, _ => (before_advance p c).trans (before_after (p.advance c) (List.cons_ne_nil _ _))

end Position

namespace Text

/-- Behind some characters a text goes on from the place where they lead. -/
theorem positionFrom_append (here : Position) : ∀ (front rest : List Char) (offset : Nat),
    positionFrom here (front ++ rest) (byteLength front + offset) =
      positionFrom (here.after front) rest offset
  | [], _, _ => by rw [List.nil_append, byteLength, Nat.zero_add]; rfl
  | c :: front, rest, offset => by
    have hsize := c.utf8Size_pos
    have hleft : byteLength (c :: front) + offset - c.utf8Size = byteLength front + offset := by
      rw [byteLength]
      omega
    rw [List.cons_append, positionFrom, if_neg (by rw [byteLength]; omega),
      if_neg (by rw [byteLength]; omega), hleft,
      positionFrom_append (here.advance c) front rest offset]
    rfl

theorem positionAt_append (front rest : List Char) :
    positionAt (front ++ rest) (byteLength front) = Position.origin.after front := by
  have h := positionFrom_append Position.origin front rest 0
  rw [positionAt, ← Nat.add_zero (byteLength front), h]
  cases rest <;> rfl

theorem takeBytes_append : ∀ front rest : List Char, takeBytes (front ++ rest) (byteLength front) = front
  | [], rest => by cases rest <;> rfl
  | c :: front, rest => by
    have hsize := c.utf8Size_pos
    obtain ⟨n, hn⟩ : ∃ n, byteLength (c :: front) = n + 1 := by
      rw [byteLength]
      exact ⟨c.utf8Size + byteLength front - 1, by omega⟩
    have hleft : n + 1 - c.utf8Size = byteLength front := by
      rw [← hn, byteLength, Nat.add_sub_cancel_left]
    rw [hn, List.cons_append, takeBytes, hleft, takeBytes_append front rest]

theorem byteLength_take_lt {i j : Nat} {text : List Char} (hij : i < j) (hi : i < text.length) :
    byteLength (text.take i) < byteLength (text.take j) := by
  obtain ⟨k, rfl⟩ := Nat.exists_eq_add_of_lt hij
  have hsize := (text.get ⟨i, hi⟩).utf8Size_pos
  rw [Nat.add_assoc, List.take_add, byteLength_append, List.drop_eq_getElem_cons hi,
    List.take_succ_cons, byteLength]
  exact Nat.lt_add_of_pos_right (Nat.add_pos_left hsize _)

/-- Characters take bytes, so the bytes before a character tell its index. -/
theorem byteLength_take_lt_iff {i j : Nat} {text : List Char} (hi : i < text.length) :
    byteLength (text.take i) < byteLength (text.take j) ↔ i < j := by
  refine ⟨fun h => ?_, fun h => byteLength_take_lt h hi⟩
  by_contra hij
  rcases Nat.eq_or_lt_of_not_lt hij with rfl | hji
  · omega
  · have := byteLength_take_lt hji (Nat.lt_trans hji hi)
    omega

/-! ## The characters between two places -/

/-- The characters of a text with their places, if the first one stands at `here`. -/
def placed (here : Position) : List Char → List (Position × Char)
  | [] => []
  | c :: rest => (here, c) :: placed (here.advance c) rest

/-- The characters of a text from the start of a location up to its end, which is excluded. -/
def between (text : List Char) (location : Location) : List Char :=
  ((placed Position.origin text).filter fun entry =>
    ¬ entry.1.Before location.start ∧ entry.1.Before location.stop).map (·.2)

theorem placed_append (here : Position) : ∀ front rest : List Char,
    placed here (front ++ rest) = placed here front ++ placed (here.after front) rest
  | [], _ => rfl
  | c :: front, rest => by
    rw [List.cons_append, placed, placed, placed_append (here.advance c) front rest]
    rfl

theorem map_snd_placed (here : Position) : ∀ chars : List Char, (placed here chars).map (·.2) = chars
  | [] => rfl
  | c :: chars => congrArg (c :: ·) (map_snd_placed (here.advance c) chars)

/-- The characters of a stretch stand neither before its start nor at its end or behind it. -/
theorem bounds_of_mem_placed : ∀ {here : Position} {chars : List Char} {entry : Position × Char},
    entry ∈ placed here chars → ¬ entry.1.Before here ∧ entry.1.Before (here.after chars)
  | here, c :: chars, entry, h => by
    rcases List.mem_cons.1 h with rfl | h
    · exact ⟨here.before_irrefl, here.before_after (List.cons_ne_nil c chars)⟩
    · obtain ⟨hstart, hstop⟩ := bounds_of_mem_placed h
      exact ⟨fun hbefore => hstart (hbefore.trans (here.before_advance c)), hstop⟩

theorem between_append (front body back : List Char) :
    between (front ++ body ++ back)
      ⟨Position.origin.after front, Position.origin.after (front ++ body)⟩ = body := by
  have hfront : ∀ entry ∈ placed Position.origin front,
      ¬ (¬ entry.1.Before (Position.origin.after front) ∧
        entry.1.Before (Position.origin.after (front ++ body))) :=
    fun entry hentry hkept => hkept.1 (bounds_of_mem_placed hentry).2
  have hbody : ∀ entry ∈ placed (Position.origin.after front) body,
      ¬ entry.1.Before (Position.origin.after front) ∧
        entry.1.Before (Position.origin.after (front ++ body)) := by
    intro entry hentry
    rw [Position.after_append]
    exact bounds_of_mem_placed hentry
  have hback : ∀ entry ∈ placed (Position.origin.after (front ++ body)) back,
      ¬ (¬ entry.1.Before (Position.origin.after front) ∧
        entry.1.Before (Position.origin.after (front ++ body))) :=
    fun entry hentry hkept => (bounds_of_mem_placed hentry).1 hkept.2
  unfold between
  rw [placed_append, placed_append, List.filter_append, List.filter_append,
    List.filter_eq_nil_iff.2 (by simpa using hfront), List.filter_eq_self.2 (by simpa using hbody),
    List.filter_eq_nil_iff.2 (by simpa using hback), List.nil_append, List.append_nil, map_snd_placed]

/-! ## Spans that cut no character -/

/-- Whether an offset lies between two characters of a text, or at one of its ends. -/
def IsBoundary (text : List Char) (offset : Nat) : Prop :=
  ∃ front, front <+: text ∧ offset = byteLength front

theorem isBoundary_of_at {text : List Char} {c : Cursor} (h : Cursor.At text c) :
    IsBoundary text c.offset := by
  obtain ⟨front, htext, hoffset⟩ := h
  exact ⟨front, ⟨c.rest, htext.symm⟩, hoffset⟩

/-- Whether a span is a stretch of a text that cuts no character. -/
structure Fits (text : List Char) (span : Span) : Prop where
  start : IsBoundary text span.start
  stop : IsBoundary text span.stop
  le : span.start ≤ span.stop

variable {text : List Char} {span : Span}

/-- From the end of some characters at the start of a text one gets to every later place. -/
theorem IsBoundary.exists_append {front : List Char} {offset : Nat} (h : IsBoundary text offset)
    (hfront : front <+: text) (hle : byteLength front ≤ offset) :
    ∃ body, front ++ body <+: text ∧ offset = byteLength (front ++ body) := by
  obtain ⟨whole, hwhole, rfl⟩ := h
  rcases List.prefix_or_prefix_of_prefix hfront hwhole with ⟨body, rfl⟩ | ⟨more, rfl⟩
  · exact ⟨body, hwhole, rfl⟩
  · -- the end is no later than the start only if nothing lies between them
    have hmore : more = [] := by
      rw [byteLength_append] at hle
      cases more with
      | nil => rfl
      | cons c more =>
        have hsize := c.utf8Size_pos
        rw [byteLength] at hle
        omega
    subst hmore
    exact ⟨[], by simpa using hwhole, by simp⟩

/-- A stretch of a text with what stands before and behind it. -/
theorem Fits.exists_parts (h : Fits text span) : ∃ front body back, text = front ++ body ++ back ∧
    span.start = byteLength front ∧ span.stop = byteLength (front ++ body) := by
  obtain ⟨⟨front, hfront, hstart⟩, hstop, hle⟩ := h
  rw [hstart] at hle
  obtain ⟨body, ⟨back, hback⟩, hend⟩ := hstop.exists_append hfront hle
  exact ⟨front, body, back, hback.symm, hstart, hend⟩

theorem slice_append (front body back : List Char) :
    slice (front ++ body ++ back) ⟨byteLength front, byteLength (front ++ body)⟩ = body := by
  rw [slice, byteLength_append, Nat.add_sub_cancel_left, List.append_assoc, dropBytes_append,
    takeBytes_append]

/-- The characters of a span inside another are part of those of the other. -/
theorem Fits.exists_slice {inner : Span} (h : Fits text span) (hinner : Fits text inner)
    (hstart : span.start ≤ inner.start) (hstop : inner.stop ≤ span.stop) :
    ∃ before after, slice text span = before ++ (slice text inner ++ after) ∧
      inner.start = span.start + byteLength before := by
  obtain ⟨start, stop⟩ := span
  obtain ⟨innerStart, innerStop⟩ := inner
  obtain ⟨⟨front, hfront, rfl⟩, hend, -⟩ := h
  obtain ⟨before, hbefore, rfl⟩ := hinner.start.exists_append hfront hstart
  obtain ⟨body, hbody, rfl⟩ := hinner.stop.exists_append hbefore hinner.le
  obtain ⟨after, ⟨back, rfl⟩, rfl⟩ := hend.exists_append hbody hstop
  refine ⟨before, after, ?_, byteLength_append front before⟩
  have hwhole := slice_append front (before ++ body ++ after) back
  have hpart := slice_append (front ++ before) body (after ++ back)
  simp only [List.append_assoc] at hwhole hpart ⊢
  rw [hwhole, hpart]

theorem Fits.lt_of_slice_ne_nil (h : Fits text span) (hslice : slice text span ≠ []) :
    span.start < span.stop := by
  obtain ⟨front, body, back, rfl, hstart, hstop⟩ := h.exists_parts
  refine Nat.lt_of_le_of_ne h.le fun heq => hslice ?_
  rw [slice, heq, Nat.sub_self]
  cases dropBytes (front ++ body ++ back) span.stop <;> rfl

/-- A later place of a text comes later. -/
theorem before_positionAt {a b : Nat} (ha : IsBoundary text a) (hb : IsBoundary text b) (hlt : a < b) :
    (positionAt text a).Before (positionAt text b) := by
  have hfits : Fits text ⟨a, b⟩ := ⟨ha, hb, Nat.le_of_lt hlt⟩
  obtain ⟨front, body, back, rfl, rfl, rfl⟩ := hfits.exists_parts
  rw [positionAt_append, List.append_assoc, positionAt_append, Position.after_append]
  refine Position.before_after _ ?_
  rintro rfl
  rw [List.append_nil] at hlt
  exact Nat.lt_irrefl _ hlt

/-- Later places of a text, or the same, do not come before. -/
theorem not_before_positionAt {a b : Nat} (ha : IsBoundary text a) (hb : IsBoundary text b) (hle : a ≤ b) :
    ¬ (positionAt text b).Before (positionAt text a) := by
  rcases Nat.eq_or_lt_of_le hle with rfl | hlt
  · exact Position.before_irrefl _
  · exact (before_positionAt ha hb hlt).asymm

/-- Between the places of its ends stand the characters of a span. -/
theorem Fits.between_locate (h : Fits text span) : between text (locate text span) = slice text span := by
  obtain ⟨front, body, back, rfl, hstart, hstop⟩ := h.exists_parts
  have hslice : slice (front ++ body ++ back) span = body := by
    obtain ⟨start, stop⟩ := span
    obtain ⟨rfl, rfl⟩ := And.intro hstart hstop
    exact slice_append front body back
  have hplace : locate (front ++ body ++ back) span =
      ⟨Position.origin.after front, Position.origin.after (front ++ body)⟩ := by
    rw [locate, hstart, hstop, positionAt_append, List.append_assoc, positionAt_append]
  rw [hslice, hplace, between_append]

end Text
end AssetAudit
