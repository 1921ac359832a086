import AssetAudit.Proofs.CursorPlace
import AssetAudit.Style.Facts

/-!
# The imports of a style sheet

The reader of a style sheet only goes on in its text: whatever it passes over, the place after it
follows the place before it (`follows_next`, `follows_selectorList` and the like). So the imports of a
sheet, nested ones included, stand in the order of the text, and each is what its place in the text says
(`inOrder_readSheet`). The import rules of the facts are these (`imports_extract`).
-/
namespace AssetAudit.Style

/-! ## Imports of items -/

mutual

/-- The start and the target of the imports in an item, in the order of the text. -/
def importsOf : Item → List (Nat × String)
  | .rule _ _ block => importsOfAll block
  | .declaration _ => []
  | .media _ _ block => importsOfAll block
  | .importing span target => [(span.start, target)]
  | .keyframes _ _ => []
  | .group block => importsOfAll block

def importsOfAll : List Item → List (Nat × String)
  | [] => []
  | item :: rest => importsOf item ++ importsOfAll rest

end

theorem importsOfAll_append : ∀ a b : List Item,
    importsOfAll (a ++ b) = importsOfAll a ++ importsOfAll b
  | [], _ => rfl
  | item :: a, b => by
    rw [List.cons_append, importsOfAll, importsOfAll, importsOfAll_append a b, List.append_assoc]

theorem importsOfAll_reverse_cons (item : Item) (found : List Item) :
    importsOfAll (item :: found).reverse = importsOfAll found.reverse ++ importsOf item := by
  rw [List.reverse_cons, importsOfAll_append, importsOfAll, importsOfAll, List.append_nil]

theorem importsOfAll_filter : ∀ items : List Item,
    importsOfAll (items.filter (!·.isDeclaration)) = importsOfAll items
  | [] => rfl
  | item :: items => by
    rw [List.filter_cons, importsOfAll, ← importsOfAll_filter items]
    cases item with
    | declaration d => rfl
    | rule | media | importing | keyframes | group => rfl

mutual

theorem imports_itemFacts (policy : Policy) (media : Option String) : ∀ item : Item,
    (itemFacts policy media item).imports.map (·.url) = (importsOf item).map (·.2)
  | .rule span selectors block => by
    have hrule : (ruleFacts policy media span selectors block).imports = [] := by
      unfold ruleFacts
      split <;> rfl
    rw [itemFacts, importsOf, Facts.merge, hrule, List.nil_append, imports_itemsFacts]
  | .declaration _ => rfl
  | .media _ _ block => by
    rw [itemFacts, importsOf]
    exact imports_itemsFacts policy _ block
  | .importing _ _ => rfl
  | .keyframes _ _ => rfl
  | .group block => by
    rw [itemFacts, importsOf]
    exact imports_itemsFacts policy media block

theorem imports_itemsFacts (policy : Policy) (media : Option String) : ∀ items : List Item,
    (itemsFacts policy media items).imports.map (·.url) = (importsOfAll items).map (·.2)
  | [] => rfl
  | item :: rest => by
    rw [itemsFacts, importsOfAll, Facts.merge, List.map_append, List.map_append,
      imports_itemFacts policy media item, imports_itemsFacts policy media rest]

end

/-- The import rules of a sheet are the imports of its items. -/
theorem imports_extract (exclude : Bool) (code : String) :
    (extract exclude code).imports.map (·.url) = (importsOfAll (readSheet code.toList)).map (·.2) :=
  imports_itemsFacts _ _ _

/-! ## Going on in the text -/

open Cursor (At Follows InOrder)

variable {text : List Char}

theorem follows_passGap : ∀ (rest : List Char) (offset pass : Nat) (spaced : Bool) (notes : List Span),
    At text ⟨rest, offset⟩ → Follows text ⟨rest, offset⟩ (passGap offset pass spaced notes rest).next
  | [], _, _, _, _, h => .refl h
  | c :: rest, offset, pass, spaced, notes, h => by
    have hskip : At text ⟨rest, offset + c.utf8Size⟩ := h.skip 1
    have hle : offset ≤ offset + c.utf8Size := Nat.le_add_right _ _
    have hgoes : ∀ pass spaced notes, Follows text ⟨c :: rest, offset⟩
        (passGap (offset + c.utf8Size) pass spaced notes rest).next := by
      intro pass spaced notes
      obtain ⟨hat, hoffset⟩ := follows_passGap rest (offset + c.utf8Size) pass spaced notes hskip
      exact ⟨hat, Nat.le_trans hle hoffset⟩
    cases pass with
    | succ n => exact hgoes n false notes
    | zero =>
      rw [passGap]
      split
      · exact hgoes _ _ _
      · split
        · exact hgoes _ _ _
        · exact hgoes _ _ _
        · exact .refl h

theorem follows_next {c d : Cursor} (h : Follows text c d) : Follows text c (next d) :=
  h.trans (follows_passGap d.rest d.offset 0 false [] h.1)

theorem follows_selectorEnd : ∀ (n : Nat) {c d : Cursor}, Follows text c d →
    Follows text c (selectorEnd n d)
  | 0, _, _, h => h
  | n + 1, c, d, h => by
    have hnext := follows_next h
    rw [selectorEnd]
    split
    · exact follows_selectorEnd n (h.skip _)
    · simp only
      split
      · exact h
      · split
        · split
          · exact follows_selectorEnd n ((follows_next (hnext.skip 1)).skip _)
          · split
            · exact hnext.skip 1
            · exact h
        · split
          · split
            · exact follows_selectorEnd n (hnext.skip _)
            · exact h
          · exact h

theorem follows_selector? {n : Nat} {c d stop : Cursor} (h : Follows text c d)
    (hstop : selector? n d = some stop) : Follows text c stop := by
  unfold selector? at hstop
  obtain ⟨length, -, rfl⟩ := Option.map_eq_some_iff.1 hstop
  refine follows_selectorEnd n (Follows.skip ?_ length)
  split
  · split
    · exact follows_next (h.skip 1)
    · exact h
  · exact h

/-- Where a list of selectors ends, with or without the block of a rule. -/
def listEnd : Except Cursor (List Span × Cursor) → Cursor
  | .error after => after
  | .ok (_, brace) => brace

theorem follows_selectorList (inBlock : Bool) : ∀ (n : Nat) (stray : Bool) (found : List Span)
    {c d : Cursor}, Follows text c d → Follows text c (listEnd (selectorList inBlock n stray found d))
  | 0, _, _, _, _, h => h
  | n + 1, stray, found, c, d, h => by
    have hnext := follows_next h
    rw [selectorList]
    simp only
    split
    · exact hnext
    · split
      · exact hnext
      · split
        · have hafter : Follows text c (gap ((gap d).next.skip 1)).next := follows_next (hnext.skip 1)
          split
          · rename_i stop hstop
            exact follows_selectorList inBlock n _ _ (follows_selector? hafter hstop)
          · exact follows_selectorList inBlock n _ _ hafter
        · split
          · exact hnext
          · split
            · rename_i stop hstop
              exact follows_selectorList inBlock n _ _ (follows_selector? hnext hstop)
            · exact follows_selectorList inBlock n _ _ (hnext.skip _)

theorem follows_valueFrom : ∀ (n : Nat) (stray : Bool) (v : Value) {c d : Cursor}, Follows text c d →
    Follows text c (valueFrom n stray v d).2
  | 0, _, _, _, _, h => h
  | n + 1, stray, v, c, d, h => by
    have hnext := follows_next h
    rw [valueFrom]
    simp only
    split
    · exact hnext
    · split
      · exact hnext
      · split
        · exact follows_valueFrom n _ _ (hnext.skip 10)
        · split
          · exact follows_valueFrom n _ _ (hnext.skip _)
          · exact follows_valueFrom n _ _ (hnext.skip 1)

theorem follows_preludeEnd (semicolon : Bool) : ∀ (n : Nat) {c d : Cursor}, Follows text c d →
    Follows text c (preludeEnd semicolon n d)
  | 0, _, _, h => h
  | n + 1, c, d, h => by
    have hnext := follows_next h
    rw [preludeEnd]
    simp only
    split
    · exact hnext
    · split
      · exact hnext
      · exact follows_preludeEnd semicolon n (hnext.skip _)

/-! ## Imports in order -/

/-- The target of the import whose keyword a text follows. -/
def importTarget (text : List Char) : String :=
  let target := text.drop (text.takeWhile Text.isAsciiBlank).length
  importAddress (target.take ((comment? target).getD (targetLength target)))

/-- Whether the import of a target starts at a cursor. -/
def StartsImport (c : Cursor) (target : String) : Prop :=
  ∃ rest, c.rest = "@import".toList ++ rest ∧ target = importTarget rest

/-- Imports in the order of the text, from a place on. -/
structure ImportsFrom (text : List Char) (c : Cursor) (imports : List (Nat × String)) : Prop where
  inOrder : InOrder StartsImport text imports
  le : ∀ entry ∈ imports, c.offset ≤ entry.1

theorem ImportsFrom.nil {c : Cursor} : ImportsFrom text c [] := ⟨.nil, by rintro _ ⟨⟩⟩

theorem ImportsFrom.of_le {c d : Cursor} {imports : List (Nat × String)}
    (h : ImportsFrom text d imports) (hle : c.offset ≤ d.offset) : ImportsFrom text c imports :=
  ⟨h.inOrder, fun entry hentry => Nat.le_trans hle (h.le entry hentry)⟩

/-- What a step of the reader from a place keeps: it goes on in the text, and the imports of its item
stand between the place and the one after the item. -/
def Keeps (text : List Char) (c : Cursor) : Step → Prop
  | .item item after => Follows text c after ∧ ImportsFrom text c (importsOf item) ∧
      ∀ entry ∈ importsOf item, entry.1 < after.offset
  | .nothing after | .lost after => Follows text c after
  | .ended kept => ImportsFrom text c (importsOfAll kept)

/-- What a block read from a place keeps: behind the imports found before stand those from the place on,
and before the place after the block if one can tell where that is. -/
def KeepsBlock (text : List Char) (c : Cursor) (before : List (Nat × String)) (block : Block) : Prop :=
  ∃ imports, importsOfAll block.items = before ++ imports ∧ ImportsFrom text c imports ∧
    (block.closed = true ∨ block.complete = true → Follows text c block.after ∧
      ∀ entry ∈ imports, entry.1 < block.after.offset)

theorem Keeps.of_le {c d : Cursor} {step : Step} (h : Keeps text d step) (hle : c.offset ≤ d.offset) :
    Keeps text c step := by
  cases step with
  | item item after => exact ⟨⟨h.1.1, Nat.le_trans hle h.1.2⟩, h.2.1.of_le hle, h.2.2⟩
  | nothing after | lost after => exact ⟨h.1, Nat.le_trans hle h.2⟩
  | ended kept => exact ImportsFrom.of_le h hle

theorem KeepsBlock.of_le {c d : Cursor} {before : List (Nat × String)} {block : Block}
    (h : KeepsBlock text d before block) (hle : c.offset ≤ d.offset) :
    KeepsBlock text c before block := by
  obtain ⟨imports, hitems, himports, hafter⟩ := h
  refine ⟨imports, hitems, himports.of_le hle, fun hdone => ?_⟩
  obtain ⟨hfollows, hlt⟩ := hafter hdone
  exact ⟨⟨hfollows.1, Nat.le_trans hle hfollows.2⟩, hlt⟩

/-- A block that found nothing more. -/
theorem keepsBlock_reverse {c d : Cursor} (found : List Item) (stop : Nat) (closed complete : Bool)
    (h : Follows text c d) :
    KeepsBlock text c (importsOfAll found.reverse) ⟨found.reverse, stop, d, closed, complete⟩ :=
  ⟨[], (List.append_nil _).symm, .nil, fun _ => ⟨h, by rintro _ ⟨⟩⟩⟩

/-- A block that goes on after an item. -/
theorem KeepsBlock.cons {c after : Cursor} {item : Item} {found : List Item} {block : Block}
    (hitem : Keeps text c (.item item after))
    (h : KeepsBlock text after (importsOfAll (item :: found).reverse) block) :
    KeepsBlock text c (importsOfAll found.reverse) block := by
  obtain ⟨hafter, hfirst, hlt⟩ := hitem
  obtain ⟨imports, hitems, himports, hend⟩ := h
  refine ⟨importsOf item ++ imports, ?_, ⟨?_, ?_⟩, ?_⟩
  · rw [hitems, importsOfAll_reverse_cons, List.append_assoc]
  · refine hfirst.inOrder.append himports.inOrder ?_
    intro entry hentry other hother
    exact Nat.lt_of_lt_of_le (hlt entry hentry) (himports.le other hother)
  · intro entry hentry
    rcases List.mem_append.1 hentry with hentry | hentry
    · exact hfirst.le entry hentry
    · exact Nat.le_trans hafter.2 (himports.le entry hentry)
  · intro hdone
    obtain ⟨hfollows, hbefore⟩ := hend hdone
    refine ⟨hafter.trans hfollows, ?_⟩
    intro entry hentry
    rcases List.mem_append.1 hentry with hentry | hentry
    · exact Nat.lt_of_lt_of_le (hlt entry hentry) hfollows.2
    · exact hbefore entry hentry

/-- The item made of a block keeps what the block keeps. -/
theorem keeps_finish {c d : Cursor} {block : Block} {nested : Bool} {build : Nat → List Item → Item}
    (hbuild : ∀ stop items, importsOf (build stop items) = importsOfAll items)
    (h : KeepsBlock text d [] block) (hd : Follows text c d) :
    Keeps text c (block.finish nested build) := by
  refine Keeps.of_le ?_ hd.2
  obtain ⟨imports, hitems, himports, hafter⟩ := h
  rw [List.nil_append] at hitems
  have hitem : block.closed = true ∨ block.complete = true →
      Keeps text d (.item (build block.stop block.items) block.after) := by
    intro hdone
    obtain ⟨hfollows, hlt⟩ := hafter hdone
    refine ⟨hfollows, ?_, ?_⟩
    · rw [hbuild, hitems]
      exact himports
    · rw [hbuild, hitems]
      exact hlt
  unfold Block.finish
  split
  · rename_i hclosed
    exact hitem (.inl hclosed)
  · split
    · rename_i hcomplete
      rw [Bool.and_eq_true] at hcomplete
      exact hitem (.inr hcomplete.1)
    · exact (congrArg (ImportsFrom text d) hitems).mpr himports

theorem keeps_importFrom {c : Cursor} {rest : List Char} (n : Nat) (hc : At text c)
    (hrest : c.rest = "@import".toList ++ rest) :
    Keeps text c (importFrom n c.offset (c.skip 7)) := by
  have hafter : (c.skip 7).rest = rest := by
    rw [Cursor.rest_skip, hrest]
    rfl
  have hne : c.rest ≠ [] := by
    rw [hrest]
    exact List.cons_ne_nil _ _
  have hstop : Follows text (c.skip 7) (preludeEnd true n (c.skip 7)) :=
    follows_preludeEnd true n (.refl (hc.skip 7))
  have hlt := Nat.lt_of_lt_of_le (Cursor.lt_offset_skip (by decide : 0 < 7) hne) hstop.2
  -- wherever the prelude ends, the import starts at the cursor and ends behind it
  have hitem : ∀ (stop : Nat) (after : Cursor), Follows text (preludeEnd true n (c.skip 7)) after →
      Keeps text c (.item (.importing ⟨c.offset, stop⟩ (importTarget rest)) after) := by
    intro stop after hgoes
    have hlt' := Nat.lt_of_lt_of_le hlt hgoes.2
    refine ⟨⟨hgoes.1, Nat.le_of_lt hlt'⟩, ⟨.singleton hc ⟨rest, hrest, rfl⟩, ?_⟩, ?_⟩
    · intro entry hentry
      rw [List.mem_singleton.1 hentry]
    · intro entry hentry
      rw [List.mem_singleton.1 hentry]
      exact hlt'
  have htarget : importTarget rest = importAddress
      (((c.skip 7).skip ((c.skip 7).rest.takeWhile Text.isAsciiBlank).length).rest.take
        ((comment? ((c.skip 7).skip ((c.skip 7).rest.takeWhile Text.isAsciiBlank).length).rest).getD
          (targetLength ((c.skip 7).skip ((c.skip 7).rest.takeWhile Text.isAsciiBlank).length).rest))) := by
    rw [Cursor.rest_skip, hafter]
    rfl
  unfold importFrom
  simp only [← htarget]
  split
  · exact hitem _ _ ((Follows.refl hstop.1).skip 1)
  · split
    · exact .nil
    · exact hitem _ _ (.refl hstop.1)
  · split
    · exact ⟨hstop.1, Nat.le_of_lt hlt⟩
    · exact hitem _ _ (.refl hstop.1)

theorem keeps_keyframesFrom {c d : Cursor} (n start : Nat) (h : Follows text c d) :
    Keeps text c (keyframesFrom n start d) := by
  have hblock := follows_preludeEnd false n (follows_next h)
  unfold keyframesFrom
  simp only
  split
  · exact .nil
  · split
    · exact hblock
    · split
      · exact .nil
      · split
        · exact hblock.skip _
        · exact ⟨hblock.skip _, .nil, by rintro _ ⟨⟩⟩

theorem keeps_declaration? {c : Cursor} {inBlock : Bool} {n : Nat} {step : Step} (hc : At text c)
    (h : declaration? text inBlock n c = some step) : Keeps text c step := by
  have hcolon := follows_next ((Follows.refl hc).skip (nameLength c.rest))
  unfold declaration? at h
  simp only at h
  split at h
  · split at h
    · cases h
    · have hstop := follows_valueFrom n false Value.empty (hcolon.skip 1)
      split at h
      · obtain rfl := Option.some.inj h
        exact ⟨hstop.skip 1, .nil, by rintro _ ⟨⟩⟩
      · split at h
        · obtain rfl := Option.some.inj h
          exact ⟨hstop, .nil, by rintro _ ⟨⟩⟩
        · obtain rfl := Option.some.inj h
          exact hstop
      · obtain rfl := Option.some.inj h
        exact .nil
  · cases h

/-- The text after the keyword of an import. -/
theorem eq_append_of_importWord {rest : List Char} (hstarts : startsAtRule rest = true)
    (hword : (String.ofList (rest.tail.takeWhile fun ch => ch.isAlpha || ch == '-' || ch == '_') ==
      "import") = true) :
    ∃ after, rest = "@import".toList ++ after := by
  rw [beq_iff_eq] at hword
  have hchars := congrArg String.toList hword
  rw [String.toList_ofList] at hchars
  unfold startsAtRule at hstarts
  split at hstarts
  · rename_i x tail
    refine ⟨(x :: tail).dropWhile fun ch => ch.isAlpha || ch == '-' || ch == '_', ?_⟩
    have hsplit := List.takeWhile_append_dropWhile
      (p := fun ch : Char => ch.isAlpha || ch == '-' || ch == '_') (l := x :: tail)
    rw [List.tail_cons] at hchars
    rw [hchars] at hsplit
    exact congrArg ('@' :: ·) hsplit.symm
  · cases hstarts

/-- Reading items goes on in the text and finds imports where they start, by induction on the bound that
blocks and their items share. -/
theorem keeps_items (n : Nat) :
    (∀ inBlock lost found stop c, At text c →
      KeepsBlock text c (importsOfAll found.reverse) (itemsFrom text inBlock n lost found stop c)) ∧
    ∀ inBlock c, At text c → Keeps text c (itemAt text inBlock n c) := by
  induction n with
  | zero =>
    refine ⟨fun inBlock lost found stop c hc => ?_, fun inBlock c hc => Follows.refl hc⟩
    exact keepsBlock_reverse found stop false true (.refl hc)
  | succ n ih =>
    obtain ⟨ihItems, ihItem⟩ := ih
    constructor
    · intro inBlock lost found stop c hc
      have hhere := follows_next (.refl hc)
      have hon : ∀ {found' : List Item} {after : Cursor} (lost' : Bool) (stop' : Nat),
          importsOfAll found'.reverse = importsOfAll found.reverse → Follows text c after →
          KeepsBlock text c (importsOfAll found.reverse)
            (itemsFrom text inBlock n lost' found' stop' after) := by
        intro found' after lost' stop' hfound hafter
        rw [← hfound]
        exact (ihItems inBlock lost' found' stop' after hafter.1).of_le hafter.2
      rw [itemsFrom]
      simp only
      split
      · exact keepsBlock_reverse _ _ _ _ hhere
      · split
        · exact keepsBlock_reverse _ _ _ _ (hhere.skip 1)
        · split
          · split
            · refine hon false stop ?_ (hhere.skip 1)
              rw [← List.filter_reverse, importsOfAll_filter]
            · exact hon true stop rfl (hhere.skip _)
          · have hitem := (ihItem inBlock (next c) hhere.1).of_le hhere.2
            split
            · rename_i item after hstep
              rw [hstep] at hitem
              exact .cons hitem (ihItems inBlock false (item :: found) _ after hitem.1.1)
            · rename_i after hstep
              rw [hstep] at hitem
              exact hon false _ rfl hitem
            · rename_i after hstep
              rw [hstep] at hitem
              refine hon true stop rfl ?_
              split
              · exact hhere.skip 1
              · exact hitem
            · rename_i kept hstep
              rw [hstep] at hitem
              exact ⟨importsOfAll kept, importsOfAll_append _ _, hitem, by rintro (h | h) <;> cases h⟩
    · intro inBlock c hc
      have hblock : ∀ {brace : Cursor} {build : Nat → List Item → Item} (stop : Nat),
          (∀ stop items, importsOf (build stop items) = importsOfAll items) → Follows text c brace →
          Keeps text c ((itemsFrom text true n false [] stop (brace.skip 1)).finish inBlock build) := by
        intro brace build stop hbuild hbrace
        exact keeps_finish hbuild (ihItems true false [] stop _ (hbrace.skip 1).1) (hbrace.skip 1)
      rw [itemAt]
      split
      · rename_i hstarts
        simp only
        split
        · rename_i hword
          obtain ⟨rest, hrest⟩ := eq_append_of_importWord hstarts hword
          rw [beq_iff_eq] at hword
          rw [hword]
          exact keeps_importFrom n hc hrest
        · split
          · exact keeps_keyframesFrom n _ ((Follows.refl hc).skip _)
          · have hprelude := fun semicolon =>
              follows_preludeEnd semicolon n ((Follows.refl hc).skip (String.length (String.ofList
                (c.rest.tail.takeWhile fun ch => ch.isAlpha || ch == '-' || ch == '_')) + 1))
            split
            · exact .nil
            · split
              · split
                · exact hblock _ (fun _ _ => by rw [importsOf]) (hprelude _)
                · exact hblock _ (fun _ _ => by rw [importsOf]) (hprelude _)
              · split
                · exact (hprelude _).skip 1
                · exact hprelude _
      · split
        · rename_i step hstep
          exact keeps_declaration? hc hstep
        · split
          · exact Follows.refl hc
          · rename_i stop hstop
            have hlist := follows_selectorList inBlock n false [⟨c.offset, stop.offset⟩]
              (follows_selector? (.refl hc) hstop)
            split
            · rename_i after hafter
              rw [hafter] at hlist
              exact hlist
            · rename_i found brace hbrace
              rw [hbrace] at hlist
              exact hblock _ (fun _ _ => by rw [importsOf]) hlist

/-- The imports of a sheet stand in the order of its text, each where it starts. -/
theorem inOrder_readSheet (text : List Char) :
    InOrder StartsImport text (importsOfAll (readSheet text)) := by
  have hstart : ∀ start : Cursor, At text start →
      InOrder StartsImport text
        (importsOfAll (itemsFrom text false (2 * text.length + 2) false [] 0 start).items) := by
    intro start hat
    obtain ⟨imports, hitems, himports, -⟩ := (keeps_items _).1 false false [] 0 start hat
    rw [hitems]
    exact himports.inOrder
  unfold readSheet
  simp only
  split
  · exact hstart _ ((Cursor.at_ofText text).skip 1)
  · exact hstart _ (Cursor.at_ofText text)

end AssetAudit.Style
