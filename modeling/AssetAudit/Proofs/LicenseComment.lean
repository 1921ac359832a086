import AssetAudit.Proofs.CommentPlace
import AssetAudit.Proofs.LicenseLayout
import AssetAudit.Script.Extract

/-!
# What cleaning changes outside comments

Cleaning a unit looks for the marks of comments and knows nothing of strings, so it may take code for a
comment (`cleaning_reaches_code`). Which characters it changes is told by what its two searches find
(`getElem?_clean`).

A block comment that is searched for ends where the one that is read there ends (`blockLength?_eq_comment?`).
Hence, if the marks of block comments stand in block comments only (`BlocksMarked`), the first search goes
from one comment to the next and never looks into one (`place_not_inside`). The second search may find more
than a comment, since that ends at any line break and the search goes on to a line feed; `LinesMarked` says
that it does not.

Main statement: `kept_outside_comments_iff`.
-/
namespace AssetAudit.License

open Script (comments comment? blockComment? Holds isBlock InComment Outside endsComment)

variable {d : Script.Dialect} {text unit : List Char}

/-! ## What a block comment is -/

theorem commentLength?_eq (count : Nat) (text : List Char) :
    commentLength? count text = (blockComment? false text).map (· + count) := by
  fun_induction commentLength? count text with
  | case1 count rest => simp [blockComment?]; omega
  | case2 count c rest hopen ih =>
    have hstar : blockComment? (c == '*') rest = blockComment? false rest := by
      cases rest with
      | nil => rfl
      | cons x rest =>
        have hends : ((c == '*') && (x == '/')) = false := by
          rw [Bool.eq_false_iff]
          simp only [ne_eq, Bool.and_eq_true, beq_iff_eq, not_and]
          intro hc hx
          exact hopen rest hc (hx ▸ rfl)
        rw [blockComment?, blockComment?, hends, Bool.false_and]
    rw [ih, blockComment?, hstar]
    cases blockComment? false rest <;> simp; omega
  | case3 count => rfl

theorem prefix_of_blockLength? {n : Nat} (h : blockLength? text = some n) : "/*".toList <+: text := by
  unfold blockLength? at h
  split at h
  · rename_i rest
    exact ⟨rest, rfl⟩
  · cases h

/-- The searched block comments are those that are read. -/
theorem blockLength?_eq_comment? (h : "/*".toList <+: text) (atStatement : Bool) :
    blockLength? text = comment? atStatement text := by
  obtain ⟨rest, rfl⟩ := h
  exact commentLength?_eq 2 rest

theorem blockLength?_pos {n : Nat} (h : blockLength? text = some n) : 0 < n := by
  obtain ⟨rest, rfl⟩ := prefix_of_blockLength? h
  change commentLength? 2 rest = some n at h
  rw [commentLength?_eq, Option.map_eq_some_iff] at h
  obtain ⟨m, -, rfl⟩ := h
  omega

theorem width_nextBlock {n : Nat} (h : blockLength? text = some n) : (nextBlock text).width = n := by
  have hpos := blockLength?_pos h
  simp only [nextBlock, h]
  split <;> simp only [Copy.width] <;> omega

theorem width_nextBlock_of_none (h : blockLength? text = none) : (nextBlock text).width = 1 := by
  simp only [nextBlock, h, Copy.width]
  omega

/-- Whether a block comment of a unit has `n` characters from the index `a` on. -/
structure IsBlockAt (d : Script.Dialect) (unit : List Char) (a n : Nat) : Prop where
  length : blockLength? (unit.drop a) = some n
  held : ∃ span ∈ comments d unit, ∀ i < unit.length, (Holds unit span i ↔ a ≤ i ∧ i < a + n)

theorem lt_length_of_blockLength? {a n : Nat} (h : blockLength? (unit.drop a) = some n) :
    a < unit.length := by
  by_contra hend
  rw [List.drop_eq_nil_of_le (by omega)] at h
  cases h

theorem exists_isBlockAt {i : Nat} (h : InComment d unit true i) (hi : i < unit.length) :
    ∃ a n, IsBlockAt d unit a n ∧ a ≤ i ∧ i < a + n := by
  obtain ⟨span, hspan, hblock, hi'⟩ := h
  obtain ⟨a, n, atStatement, hcomment, hstart, hholds⟩ :=
    (Script.isComment_of_mem_comments hspan).exists_holds_iff
  rw [isBlock, hstart, Text.startsWith_iff] at hblock
  exact ⟨a, n, ⟨blockLength?_eq_comment? hblock atStatement ▸ hcomment, span, hspan, hholds⟩,
    (hholds i hi).1 hi'⟩

namespace IsBlockAt

variable {a b m n : Nat}

theorem not_outside (h : IsBlockAt d unit a n) {i : Nat} (hi : i < unit.length) (hle : a ≤ i)
    (hlt : i < a + n) : ¬ Outside d unit i := by
  intro hout
  obtain ⟨span, hspan, hholds⟩ := h.held
  exact hout span hspan ((hholds i hi).2 ⟨hle, hlt⟩)

/-- No comment starts inside another. -/
theorem start_eq (h : IsBlockAt d unit a n) (h' : IsBlockAt d unit b m) (hle : a ≤ b) (hlt : b < a + n) :
    a = b := by
  have hb := lt_length_of_blockLength? h'.length
  have hm := blockLength?_pos h'.length
  obtain ⟨span, hspan, hholds⟩ := h.held
  obtain ⟨other, hother, hholds'⟩ := h'.held
  obtain rfl := Script.eq_of_holds hspan hother ((hholds b hb).2 ⟨hle, hlt⟩) ((hholds' b hb).2 (by omega))
  have ha := (hholds' a (by omega)).1 ((hholds a (by omega)).2 (by omega))
  omega

end IsBlockAt

/-! ## Blocks that the search finds -/

/-- Whether every slash and star that a star and slash follow stands in a block comment. -/
def BlocksMarked (d : Script.Dialect) (unit : List Char) : Prop :=
  ∀ i < unit.length, (blockLength? (unit.drop i)).isSome → InComment d unit true i

/-- What the search finds where it does not look into a comment is a comment. -/
theorem isBlockAt_place (hmarks : BlocksMarked d unit) {k n : Nat}
    (hplace : ∀ a m, IsBlockAt d unit a m →
      place nextBlock unit k ≤ a ∨ a + m ≤ place nextBlock unit k)
    (hlength : blockLength? (unit.drop (place nextBlock unit k)) = some n) :
    IsBlockAt d unit (place nextBlock unit k) n := by
  have hlt := lt_length_of_blockLength? hlength
  obtain ⟨a, m, hblock, hle, hend⟩ := exists_isBlockAt (hmarks _ hlt (by rw [hlength]; rfl)) hlt
  have hstart : a = place nextBlock unit k := by
    have := hplace a m hblock
    omega
  subst hstart
  rw [hblock.length, Option.some.injEq] at hlength
  exact hlength ▸ hblock

/-- The search never looks into a block comment. -/
theorem place_not_inside (hmarks : BlocksMarked d unit) (k : Nat) : ∀ a n, IsBlockAt d unit a n →
    place nextBlock unit k ≤ a ∨ a + n ≤ place nextBlock unit k := by
  induction k with
  | zero => exact fun a n _ => .inl (Nat.zero_le a)
  | succ k ih =>
    intro a n hblock
    have hnext : place nextBlock unit k < place nextBlock unit (k + 1) := place_lt_succ k
    by_cases hle : place nextBlock unit k ≤ a
    · cases hlength : blockLength? (unit.drop (place nextBlock unit k)) with
      | none =>
        have hne : place nextBlock unit k ≠ a := by
          intro heq
          rw [heq, hblock.length] at hlength
          cases hlength
        rw [place, width_nextBlock_of_none hlength]
        omega
      | some m =>
        have hfound := isBlockAt_place hmarks ih hlength
        rw [place, width_nextBlock hlength]
        by_cases hlt : a < place nextBlock unit k + m
        · have heq := hfound.start_eq hblock hle hlt
          rw [heq, hblock.length, Option.some.injEq] at hlength
          omega
        · omega
    · have := ih a n hblock
      omega

theorem not_outside_of_blanked_nextBlock (hmarks : BlocksMarked d unit) {i : Nat} (hi : i < unit.length)
    (h : Blanked nextBlock unit i) : ¬ Outside d unit i := by
  obtain ⟨k, n, hnext, hle, hlt⟩ := h
  obtain ⟨hlength, -⟩ := blanked_of_nextBlock hnext
  exact (isBlockAt_place hmarks (place_not_inside hmarks k) hlength).not_outside hi hle hlt

/-! ## Lines that the search finds -/

/-- Whether `n` characters from the index `i` on stand on one line, but for a carriage return at the end. -/
def OnOneLine (unit : List Char) (i n : Nat) : Prop :=
  ∀ j < n, unit[i + j]?.any endsComment = true → unit[i + j]? = some '\r' ∧ j + 1 = n

instance (unit : List Char) (i n : Nat) : Decidable (OnOneLine unit i n) :=
  inferInstanceAs (Decidable (∀ j < n, unit[i + j]?.any endsComment = true →
    unit[i + j]? = some '\r' ∧ j + 1 = n))

/-- Whether all that the search finds behind two slashes stands in comments that run to the end of their
line, and goes no further. -/
def LinesMarked (d : Script.Dialect) (unit : List Char) : Prop :=
  ∀ i < unit.length, ∀ n ∈ lineLength? ((blankBlocks unit).drop i),
    InComment d unit false i ∧ OnOneLine unit i n

/-- A comment goes on to the end of its line. -/
theorem not_outside_of_inComment {i j : Nat} (h : InComment d unit false i) (hle : i ≤ j)
    (hj : j < unit.length) (hline : ∀ l, i ≤ l → l ≤ j → ∀ c ∈ unit[l]?, endsComment c = false) :
    ¬ Outside d unit j := by
  obtain ⟨span, hspan, hblock, hi⟩ := h
  obtain ⟨a, n, atStatement, hcomment, hstart, hholds⟩ :=
    (Script.isComment_of_mem_comments hspan).exists_holds_iff
  have hopen : ¬ "/*".toList <+: unit.drop a := by
    rw [← hstart, ← Text.startsWith_iff, ← isBlock, hblock]
    exact Bool.false_ne_true
  have hstop := Script.comment?_stop hcomment hopen
  have hin := (hholds i (by omega)).1 hi
  intro hout
  have hend : a + n ≤ j := by
    by_contra hlt
    exact hout span hspan ((hholds j hj).2 (by omega))
  rw [List.getElem?_drop, List.getElem?_eq_getElem (by omega)] at hstop
  have hends := hstop _ rfl
  rw [hline (a + n) (by omega) hend _ (List.getElem?_eq_getElem (by omega))] at hends
  cases hends

theorem not_outside_of_blanked_nextLine (hmarks : LinesMarked d unit) {i : Nat} {c : Char}
    (hc : unit[i]? = some c) (hchar : blankChar c ≠ c) (h : Blanked nextLine (blankBlocks unit) i) :
    ¬ Outside d unit i := by
  have hi := (List.getElem?_eq_some_iff.1 hc).1
  obtain ⟨k, n, hnext, hle, hlt⟩ := h
  obtain ⟨hcomment, hline⟩ := hmarks _ (by omega) n (blanked_of_nextLine hnext)
  refine not_outside_of_inComment hcomment hle hi fun l hl hli x hx => ?_
  rw [Bool.eq_false_iff]
  intro hends
  obtain ⟨j, rfl⟩ := Nat.exists_eq_add_of_le hl
  obtain ⟨hreturn, hlast⟩ := hline j (by omega) (by rw [hx]; exact hends)
  -- Only a carriage return at the end of what was found ends the comment, and it is blank already.
  have heq : place nextLine (blankBlocks unit) k + j = i := by omega
  rw [heq, hc, Option.some.injEq] at hreturn
  exact hchar (by rw [hreturn]; rfl)

/-! ## Characters that cleaning keeps -/

/-- Whether one of the two searches makes the character at an index blank. -/
def Found (unit : List Char) (i : Nat) : Prop :=
  Blanked nextBlock unit i ∨ Blanked nextLine (blankBlocks unit) i

theorem blankChar_blankChar (c : Char) : blankChar (blankChar c) = blankChar c := by
  rcases blankChar_cases c with h | ⟨-, -, h⟩
  · rw [h, h]
  · rw [h]
    rfl

theorem getElem?_clean (code : String) {i : Nat} {c : Char} (hc : code.toList[i]? = some c) :
    (clean code).toList[i]? = some c ↔ (Found code.toList i → blankChar c = c) := by
  rw [clean_eq, String.toList_ofList, Found, blankLines, blankBlocks]
  rcases getElem?_copy nextLine (copy nextBlock (.plain 0) code.toList) i with ⟨hline, h⟩ | ⟨hline, h⟩
  · rcases getElem?_copy nextBlock code.toList i with ⟨hblock, h'⟩ | ⟨hblock, h'⟩
    · simp [h, h', hc, hline, hblock, blankChar_blankChar]
    · simp [h, h', hc, hline]
  · rcases getElem?_copy nextBlock code.toList i with ⟨hblock, h'⟩ | ⟨hblock, h'⟩
    · simp [h, h', hc, hblock]
    · simp [h, h', hc, hline, hblock]

/-- Whether cleaning a unit keeps all its characters that stand in no comment. -/
def OutsideKept (d : Script.Dialect) (code : String) : Prop :=
  ∀ (i : Nat) (c : Char), code.toList[i]? = some c → Outside d code.toList i →
    (clean code).toList[i]? = some c

theorem not_outsideKept {code : String} (i : Nat) (c : Char) (hc : code.toList[i]? = some c)
    (hout : Outside d code.toList i) (hchanged : (clean code).toList[i]? ≠ some c) :
    ¬ OutsideKept d code :=
  fun hkept => hchanged (hkept i c hc hout)

/-- Cleaning a unit changes a character that stands in no comment exactly if one of its two searches finds
it, and it is not blank already: the searches know comments by their marks alone. If all marks that they go
by stand in comments, and no comment on one line is taken to go on behind its end, then only comments are
changed. -/
theorem kept_outside_comments_iff (d : Script.Dialect) (code : String) :
    (OutsideKept d code ↔ ∀ (i : Nat) (c : Char), code.toList[i]? = some c →
      Outside d code.toList i → Found code.toList i → blankChar c = c) ∧
    (BlocksMarked d code.toList → LinesMarked d code.toList → OutsideKept d code) := by
  refine ⟨?_, fun hblocks hlines i c hc hout => ?_⟩
  · constructor
    · intro hkept i c hc hout
      exact (getElem?_clean code hc).1 (hkept i c hc hout)
    · intro hblank i c hc hout
      exact (getElem?_clean code hc).2 (hblank i c hc hout)
  · rw [getElem?_clean code hc]
    rintro (hblock | hline)
    · exact absurd hout (not_outside_of_blanked_nextBlock hblocks (List.getElem?_eq_some_iff.1 hc).1 hblock)
    · by_contra hchar
      exact not_outside_of_blanked_nextLine hlines hc hchar hline hout

/-- In a unit with comments of both kinds, an address in a string and line ends of two characters, only the
two licenses are made blank. -/
theorem licenses_of_unit_blanked :
    let code := "/*! v1 */ u = \"http://x\"; // @license MIT\r\n/* keep */ f();\n"
    BlocksMarked .javascript code.toList ∧ LinesMarked .javascript code.toList ∧
      OutsideKept .javascript code ∧
      clean code = "          u = \"http://x\";                \r\n/* keep */ f();\n" := by
  intro code
  have hblocks : BlocksMarked .javascript code.toList := by
    unfold BlocksMarked
    decide +kernel
  have hlines : LinesMarked .javascript code.toList := by
    unfold LinesMarked
    decide +kernel
  exact ⟨hblocks, hlines, (kept_outside_comments_iff .javascript code).2 hblocks hlines, by decide +kernel⟩

/-- Units that can be read, and lose code when they are cleaned: from a mark in a string, or in a comment on
one line, to the end of a license behind; from two slashes over the end of the line to the word; and over
the end of a line that is a carriage return alone. -/
theorem cleaning_reaches_code :
    let losesCode (code : String) : Prop :=
      (Script.extract ⟨.javascript, false, []⟩ code).isOk = true ∧ ¬ OutsideKept .javascript code
    losesCode "s = \"/*! x */\";" ∧ losesCode "g = \"src/*\"; f(); /* license */" ∧
      losesCode "// src/*\nf(); /* license */" ∧ losesCode "//\n@license class A \x7b\x7d" ∧
      losesCode "// @license\rf();" := by
  refine ⟨⟨?_, not_outsideKept 5 '/' ?_ ?_ ?_⟩, ⟨?_, not_outsideKept 13 'f' ?_ ?_ ?_⟩,
    ⟨?_, not_outsideKept 9 'f' ?_ ?_ ?_⟩, ⟨?_, not_outsideKept 3 '@' ?_ ?_ ?_⟩,
    ⟨?_, not_outsideKept 12 'f' ?_ ?_ ?_⟩⟩ <;> decide +kernel

end AssetAudit.License
