import AssetAudit.SourceMap.Mapping

/-!
# The token that holds at a place

A token of a map holds from its start to the start of the next one. `Holds` states which token holds at
a place, and how many lines lie above the section it stands in: the last token that starts at or before
the place, in the last section that starts at or before it. Of several tokens that start at the place
itself the first one holds, of several that start at an earlier place the last one (`IsHeld`).

Looking up finds just this token in a map whose tokens and sections are ordered by their starts
(`lookup?_eq_some_iff`), and every map that is read from a text is ordered (`ordered_of_decode?`).
-/
namespace AssetAudit.SourceMap

/-! ## The order of places -/

theorem notAfter_iff {a b : Nat × Nat} :
    notAfter a b = true ↔ a.1 < b.1 ∨ a.1 = b.1 ∧ a.2 ≤ b.2 := by
  simp [notAfter]

theorem notAfter_refl (a : Nat × Nat) : notAfter a a = true := by
  simp [notAfter]

theorem notAfter_trans {a b c : Nat × Nat} (hab : notAfter a b = true) (hbc : notAfter b c = true) :
    notAfter a c = true := by
  rw [notAfter_iff] at *
  omega

theorem notAfter_total (a b : Nat × Nat) : (notAfter a b || notAfter b a) = true := by
  rw [Bool.or_eq_true, notAfter_iff, notAfter_iff]
  omega

theorem notAfter_antisymm {a b : Nat × Nat} (hab : notAfter a b = true) (hba : notAfter b a = true) :
    a = b := by
  rw [notAfter_iff] at hab hba
  exact Prod.ext (by omega) (by omega)

section Held

variable {α : Type} {start : α → Nat × Nat} {place : Nat × Nat} {items : List α} {item : α}

/-- The entry of a list that holds at a place. -/
structure IsHeld (start : α → Nat × Nat) (place : Nat × Nat) (items : List α) (item : α) : Prop where
  started : notAfter (start item) place = true
  /-- No entry starts later, up to the place. -/
  latest : ∀ other ∈ items, notAfter (start other) place = true →
    notAfter (start other) (start item) = true
  /-- Among those with the same start it is the first at the place, and the last before it. -/
  choice : ∃ before after, items = before ++ item :: after ∧
    ((start item = place ∧ ∀ other ∈ before, start other ≠ place) ∨
      (start item ≠ place ∧ ∀ other ∈ after, start other ≠ start item))

theorem IsHeld.mem (h : IsHeld start place items item) : item ∈ items := by
  obtain ⟨before, after, rfl, -⟩ := h.choice
  simp

/-- The entries are in the order of their starts. -/
def IsSorted (start : α → Nat × Nat) (items : List α) : Prop :=
  items.Pairwise fun a b => notAfter (start a) (start b) = true

theorem isSorted_mergeSort (start : α → Nat × Nat) (items : List α) :
    IsSorted start (items.mergeSort fun a b => notAfter (start a) (start b)) := by
  apply List.pairwise_mergeSort
  · intro a b c
    exact notAfter_trans
  · intro a b
    exact notAfter_total (start a) (start b)

/-- The search for the entry that holds: one that starts at the place, or else the last before it. -/
def held? (start : α → Nat × Nat) (place : Nat × Nat) (items : List α) : Option α :=
  (items.find? (start · == place)).or (items.reverse.find? fun item => notAfter (start item) place)

theorem isHeld_of_held? (hsorted : IsSorted start items) (h : held? start place items = some item) :
    IsHeld start place items item := by
  rcases Option.or_eq_some_iff.1 h with hfound | ⟨hnone, h⟩
  · obtain ⟨hstart, before, after, hsplit, hbefore⟩ := List.find?_eq_some_iff_append.1 hfound
    have hplace : start item = place := by simpa using hstart
    refine ⟨hplace ▸ notAfter_refl _, fun other _ hother => hplace ▸ hother,
      before, after, hsplit, Or.inl ⟨hplace, ?_⟩⟩
    simpa using hbefore
  · obtain ⟨hstarted, after, before, hsplit, hafter⟩ := List.find?_eq_some_iff_append.1 h
    have hitems : items = before.reverse ++ item :: after.reverse := by
      rw [← List.reverse_reverse items, hsplit]
      simp
    have hlate : ∀ other ∈ after.reverse, notAfter (start other) place = false := by
      simpa using hafter
    have hne : start item ≠ place := by
      intro hplace
      have := List.find?_eq_none.1 hnone item (by simp [hitems])
      simp [hplace] at this
    refine ⟨hstarted, ?_, _, _, hitems, Or.inr ⟨hne, ?_⟩⟩
    · intro other hmem hother
      rw [hitems] at hmem hsorted
      rcases List.mem_append.1 hmem with hbefore | hmem
      · exact (List.pairwise_append.1 hsorted).2.2 _ hbefore _ List.mem_cons_self
      · rcases List.mem_cons.1 hmem with rfl | hmem
        · exact notAfter_refl _
        · rw [hlate other hmem] at hother
          cases hother
    · intro other hmem heq
      rw [← heq, hlate other hmem] at hstarted
      cases hstarted

theorem held?_of_isHeld (hsorted : IsSorted start items) (h : IsHeld start place items item) :
    held? start place items = some item := by
  obtain ⟨before, after, hitems, ⟨hplace, hbefore⟩ | ⟨hne, hafter⟩⟩ := h.choice
  · have hfind : items.find? (start · == place) = some item :=
      List.find?_eq_some_iff_append.2
        ⟨by simpa using hplace, before, after, hitems, by simpa using hbefore⟩
    rw [held?, hfind, Option.some_or]
  · have hnone : items.find? (start · == place) = none := by
      rw [List.find?_eq_none]
      intro other hmem heq
      -- an entry at the place would be later than `item`
      have hother : start other = place := by simpa using heq
      have hle := h.latest other hmem (hother ▸ notAfter_refl _)
      exact hne (notAfter_antisymm h.started (hother ▸ hle))
    have hlate : ∀ other ∈ after, notAfter (start other) place = false := by
      intro other hmem
      rw [Bool.eq_false_iff]
      intro htrue
      have hle := h.latest other (by simp [hitems, hmem]) htrue
      rw [hitems] at hsorted
      have hge := (List.pairwise_cons.1 (List.pairwise_append.1 hsorted).2.1).1 other hmem
      exact hafter other hmem (notAfter_antisymm hle hge)
    rw [held?, hnone, Option.none_or]
    refine List.find?_eq_some_iff_append.2
      ⟨h.started, after.reverse, before.reverse, by simp [hitems], by simpa using hlate⟩

theorem held?_eq_some_iff (hsorted : IsSorted start items) :
    held? start place items = some item ↔ IsHeld start place items item :=
  ⟨isHeld_of_held? hsorted, held?_of_isHeld hsorted⟩

/-! The search as it goes through a list. -/

theorem held?_cons_at (hstart : start item = place) :
    held? start place (item :: items) = some item := by
  simp [held?, hstart]

theorem held?_cons_before (hne : start item ≠ place) (hstarted : notAfter (start item) place = true) :
    held? start place (item :: items) = (held? start place items).or (some item) := by
  unfold held?
  rw [List.find?_cons_of_neg (by simpa using hne), List.reverse_cons, List.find?_append]
  have hsingle : [item].find? (fun item => notAfter (start item) place) = some item :=
    List.find?_cons_of_pos hstarted
  rw [hsingle, Option.or_assoc]

theorem held?_cons_after (hsorted : IsSorted start (item :: items))
    (hlater : notAfter (start item) place = false) : held? start place (item :: items) = none := by
  cases hheld : held? start place (item :: items) with
  | none => rfl
  | some found =>
    have hfound := isHeld_of_held? hsorted hheld
    have hle : notAfter (start item) (start found) = true := by
      rcases List.mem_cons.1 hfound.mem with rfl | hmem
      · exact notAfter_refl _
      · exact (List.pairwise_cons.1 hsorted).1 found hmem
    rw [notAfter_trans hle hfound.started] at hlater
    cases hlater

end Held

/-! ## Ordered maps -/

/-- Tokens and sections are in the order of their starts. -/
inductive Mapping.Ordered : Mapping → Prop
  | flat {tokens : List Token} (sources : List String) (sorted : IsSorted Token.start tokens) :
      Ordered (.flat tokens sources)
  | sections {parts : List ((Nat × Nat) × Mapping)} (sorted : IsSorted Prod.fst parts)
      (inner : ∀ part ∈ parts, part.2.Ordered) : Ordered (.sections parts)

theorem ordered_of_decodeFlat? {fields : List (String × Json.Value)} {map : Mapping}
    (h : decodeFlat? fields = some map) : map.Ordered := by
  unfold decodeFlat? at h
  obtain ⟨sources, -, h⟩ := Option.bind_eq_some_iff.1 h
  obtain ⟨names, -, h⟩ := Option.bind_eq_some_iff.1 h
  obtain ⟨root, -, h⟩ := Option.bind_eq_some_iff.1 h
  obtain ⟨mappings, -, h⟩ := Option.bind_eq_some_iff.1 h
  obtain ⟨ranges, -, h⟩ := Option.bind_eq_some_iff.1 h
  obtain ⟨tokens, htokens, h⟩ := Option.bind_eq_some_iff.1 h
  cases h
  obtain ⟨unsorted, -, rfl⟩ := Option.map_eq_some_iff.1 htokens
  exact .flat _ (isSorted_mergeSort Token.start unsorted)

theorem ordered_of_decodeSection? {decode : Json.Value → Option Mapping}
    (hdecode : ∀ {v map}, decode v = some map → map.Ordered) {v : Json.Value}
    {part : (Nat × Nat) × Mapping} (h : decodeSection? decode v = some part) : part.2.Ordered := by
  unfold decodeSection? at h
  obtain ⟨fields, -, h⟩ := Option.bind_eq_some_iff.1 h
  obtain ⟨offset, -, h⟩ := Option.bind_eq_some_iff.1 h
  obtain ⟨url, -, h⟩ := Option.bind_eq_some_iff.1 h
  obtain ⟨map?, hmap, h⟩ := Option.bind_eq_some_iff.1 h
  cases h
  have hempty : (Mapping.flat [] []).Ordered := .flat [] List.Pairwise.nil
  cases map? with
  | none => exact hempty
  | some map =>
    -- a field that is there was decoded
    unfold field? Json.optional? at hmap
    split at hmap
    · unfold Json.Value.optional? at hmap
      split at hmap
      · cases hmap
      · obtain ⟨inner, hinner, hsame⟩ := Option.map_eq_some_iff.1 hmap
        cases hsame
        exact hdecode hinner
    · cases hmap

theorem exists_of_mem_mapM {α β : Type} {f : α → Option β} : ∀ {items : List α} {found : List β},
    items.mapM f = some found → ∀ b ∈ found, ∃ a ∈ items, f a = some b
  | [], found, h => by
    cases h
    simp
  | a :: items, found, h => by
    rw [List.mapM_cons] at h
    obtain ⟨first, hfirst, h⟩ := Option.bind_eq_some_iff.1 h
    obtain ⟨rest, hrest, h⟩ := Option.bind_eq_some_iff.1 h
    cases h
    intro b hb
    rcases List.mem_cons.1 hb with rfl | hb
    · exact ⟨a, List.mem_cons_self, hfirst⟩
    · obtain ⟨other, hmem, hother⟩ := exists_of_mem_mapM hrest b hb
      exact ⟨other, List.mem_cons_of_mem _ hmem, hother⟩

theorem ordered_of_decodeValue? : ∀ {n : Nat} {v : Json.Value} {map : Mapping},
    decodeValue? n v = some map → map.Ordered := by
  intro n
  induction n with
  | zero =>
    intro v map h
    cases h
  | succ n ih =>
    intro v map h
    unfold decodeValue? at h
    split at h
    · rename_i m fields hn
      cases hn
      obtain ⟨known, -, h⟩ := Option.bind_eq_some_iff.1 h
      simp only [Option.bind_eq_bind] at h
      split at h
      · cases h
      · obtain ⟨items?, -, h⟩ := Option.bind_eq_some_iff.1 h
        split at h
        · exact ordered_of_decodeFlat? h
        · rename_i items
          obtain ⟨parts, hparts, h⟩ := Option.bind_eq_some_iff.1 h
          cases h
          refine .sections (isSorted_mergeSort Prod.fst parts) fun part hpart => ?_
          rw [List.mem_mergeSort] at hpart
          obtain ⟨item, -, hitem⟩ := exists_of_mem_mapM hparts part hpart
          exact ordered_of_decodeSection? ih hitem
    · cases h

theorem ordered_of_decode? {text : String} {map : Mapping} (h : decode? text = some map) :
    map.Ordered := by
  unfold decode? at h
  obtain ⟨body, -, h⟩ := Option.bind_eq_some_iff.1 h
  obtain ⟨value, -, h⟩ := Option.bind_eq_some_iff.1 h
  exact ordered_of_decodeValue? h

/-! ## Looking up -/

/-- A place as it is counted in a section. -/
def inside (start place : Nat × Nat) : Nat × Nat :=
  (place.1 - start.1, if place.1 = start.1 then place.2 - start.2 else place.2)

/-- `Holds map place above target`: at a place of the generated text a token holds that leads to
`target`, in a section `above` lines below the top. -/
inductive Holds : Mapping → Nat × Nat → Nat → Target → Prop
  | flat {tokens : List Token} {sources : List String} {place : Nat × Nat} {token : Token}
      (held : IsHeld Token.start place tokens token) :
      Holds (.flat tokens sources) place 0 (token.target sources place.2)
  | inSection {parts : List ((Nat × Nat) × Mapping)} {place : Nat × Nat}
      {part : (Nat × Nat) × Mapping} {above : Nat} {target : Target}
      (held : IsHeld Prod.fst place parts part)
      (inner : Holds part.2 (inside part.1 place) above target) :
      Holds (.sections parts) place (part.1.1 + above) target

theorem lookupIn?_eq {line column : Nat} : ∀ {parts : List ((Nat × Nat) × Mapping)}
    {found : Option Target}, IsSorted Prod.fst parts →
    lookupIn? line column found parts =
      (held? Prod.fst (line, column) parts).elim found fun part =>
        part.2.lookup? (inside part.1 (line, column)).1 (inside part.1 (line, column)).2
  | [], found, _ => by simp [lookupIn?, held?]
  | (start, map) :: rest, found, hsorted => by
    have hrest : IsSorted Prod.fst rest := (List.pairwise_cons.1 hsorted).2
    rw [lookupIn?]
    simp only [beq_iff_eq]
    by_cases hstart : start = (line, column)
    · rw [if_pos hstart, held?_cons_at hstart]
      rfl
    · rw [if_neg hstart]
      by_cases hstarted : notAfter start (line, column) = true
      · rw [if_pos hstarted, lookupIn?_eq hrest, held?_cons_before hstart hstarted]
        cases held? Prod.fst (line, column) rest <;> rfl
      · rw [if_neg hstarted, held?_cons_after hsorted (by simpa using hstarted)]
        rfl

theorem holding?_eq (place : Nat × Nat) (tokens : List Token) :
    holding? place tokens = held? Token.start place tokens := by
  unfold holding? held?
  cases tokens.find? (·.start == place) <;> rfl

/-- Looking up finds the token that holds. -/
theorem lookup?_eq_some_iff {map : Mapping} (h : map.Ordered) : ∀ {line column : Nat}
    {target : Target}, map.lookup? line column = some target ↔
      ∃ above, Holds map (line, column) above target := by
  induction h with
  | @flat tokens sources sorted =>
    intro line column target
    rw [Mapping.lookup?, Option.map_eq_some_iff, holding?_eq]
    constructor
    · rintro ⟨token, htoken, rfl⟩
      exact ⟨0, .flat ((held?_eq_some_iff sorted).1 htoken)⟩
    · rintro ⟨above, hholds⟩
      cases hholds with
      | @flat _ _ _ token held => exact ⟨token, (held?_eq_some_iff sorted).2 held, rfl⟩
  | @sections parts sorted _ ih =>
    intro line column target
    rw [Mapping.lookup?, lookupIn?_eq sorted]
    constructor
    · intro hfound
      cases hheld : held? Prod.fst (line, column) parts with
      | none =>
        rw [hheld] at hfound
        cases hfound
      | some part =>
        rw [hheld] at hfound
        have hpart := (held?_eq_some_iff sorted).1 hheld
        obtain ⟨above, hinner⟩ := (ih part hpart.mem).1 hfound
        exact ⟨_, .inSection hpart hinner⟩
    · rintro ⟨above, hholds⟩
      cases hholds with
      | @inSection _ _ part above _ held inner =>
        rw [(held?_eq_some_iff sorted).2 held]
        exact (ih part held.mem).2 ⟨above, inner⟩

/-- A token stands on the line of the place at which it holds, or above. -/
theorem Holds.line_le {map : Mapping} {place : Nat × Nat} {above : Nat} {target : Target}
    (h : Holds map place above target) : above + target.line ≤ place.1 := by
  induction h with
  | @flat _ _ place token held =>
    have hstarted := notAfter_iff.1 held.started
    have hline : token.start.1 = token.line := rfl
    simp only [Token.target]
    omega
  | @inSection _ place part above target held _ ih =>
    have hstarted := notAfter_iff.1 held.started
    simp only [inside] at ih
    omega

end AssetAudit.SourceMap
