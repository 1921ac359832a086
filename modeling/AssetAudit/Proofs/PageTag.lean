import AssetAudit.Page.Facts
import AssetAudit.Proofs.CursorPlace

/-!
# The tags of a page

Reading a page adds its start tags one after another: a step leaves the tags as they are or adds the one
that starts where the reader stands (`steps_step?`), an element that ends keeps its tags where they are,
and at the end of the text some may be lost. So the tags of a page stand in the order of the text, and
each is what its place in the text says (`inOrder_readPage`). The external scripts and style sheets are
read off the tags alone (`externals_resourcesOfAll`).
-/
namespace AssetAudit.Page

/-! ## Tags of elements -/

mutual

/-- The start and the tag of an element and of those inside it, in the order of the text. -/
def tagsOf : Element → List (Nat × Tag)
  | .mk span tag _ children => (span.start, tag) :: tagsOfAll children

def tagsOfAll : List Element → List (Nat × Tag)
  | [] => []
  | element :: rest => tagsOf element ++ tagsOfAll rest

end

theorem tagsOfAll_append : ∀ a b : List Element, tagsOfAll (a ++ b) = tagsOfAll a ++ tagsOfAll b
  | [], _ => rfl
  | element :: a, b => by
    rw [List.cons_append, tagsOfAll, tagsOfAll, tagsOfAll_append a b, List.append_assoc]

theorem tagsOfAll_singleton (element : Element) : tagsOfAll [element] = tagsOf element := by
  rw [tagsOfAll, tagsOfAll, List.append_nil]

theorem tagsOfAll_flatMap {α : Type} (f : α → List Element) : ∀ items : List α,
    tagsOfAll (items.flatMap f) = items.flatMap fun item => tagsOfAll (f item)
  | [] => rfl
  | item :: items => by
    rw [List.flatMap_cons, List.flatMap_cons, tagsOfAll_append, tagsOfAll_flatMap f items]

/-- The address of the script a tag loads. -/
def scriptSource? (tag : Tag) : Option String :=
  if tag.name = "script" then tag.attribute? "src" else none

/-- The address of the style sheet a tag links. -/
def styleSource? (tag : Tag) : Option String :=
  if tag.name = "link" ∧ linksStyle tag = true then tag.attribute? "href" else none

theorem elementResources_scripts (text : List Char) (span : Span) (tag : Tag) (raw : String) :
    (elementResources text span tag raw).externalScripts.map (·.src) = (scriptSource? tag).toList := by
  unfold elementResources
  simp only
  split
  · rename_i hname
    have hnone : scriptSource? tag = none := by simp [scriptSource?, hname]
    rw [hnone]
    split <;> rfl
  · rename_i hname
    have hnone : scriptSource? tag = none := by simp [scriptSource?, hname]
    rw [hnone]
    split <;> rfl
  · rename_i hname
    have hsource : scriptSource? tag = tag.attribute? "src" := by simp [scriptSource?, hname]
    rw [hsource]
    cases tag.attribute? "src" <;> rfl
  · rename_i hscript
    rw [scriptSource?, if_neg hscript]
    rfl

theorem elementResources_styles (text : List Char) (span : Span) (tag : Tag) (raw : String) :
    (elementResources text span tag raw).externalStyles.map (·.href) = (styleSource? tag).toList := by
  unfold elementResources
  simp only
  split
  · rename_i hname
    have hnone : styleSource? tag = none := by simp [styleSource?, hname]
    rw [hnone]
    split <;> rfl
  · rename_i hname
    have hsource : styleSource? tag = if linksStyle tag then tag.attribute? "href" else none := by
      simp [styleSource?, hname]
    rw [hsource]
    cases linksStyle tag <;> cases tag.attribute? "href" <;> rfl
  · rename_i hname
    have hnone : styleSource? tag = none := by simp [styleSource?, hname]
    rw [hnone]
    cases tag.attribute? "src" <;> rfl
  · rename_i hlink _
    rw [styleSource?, if_neg fun h => hlink h.1]
    rfl

mutual

theorem externals_resourcesOf (text : List Char) : ∀ element : Element,
    (resourcesOf text element).externalScripts.map (·.src) =
        (tagsOf element).filterMap (scriptSource? ·.2) ∧
      (resourcesOf text element).externalStyles.map (·.href) =
        (tagsOf element).filterMap (styleSource? ·.2)
  | .mk span tag raw children => by
    obtain ⟨hscripts, hstyles⟩ := externals_resourcesOfAll text children
    rw [resourcesOf, tagsOf]
    constructor
    · simp only [Resources.merge, List.map_append, elementResources_scripts, hscripts,
        List.filterMap_cons]
      cases scriptSource? tag <;> rfl
    · simp only [Resources.merge, List.map_append, elementResources_styles, hstyles,
        List.filterMap_cons]
      cases styleSource? tag <;> rfl

theorem externals_resourcesOfAll (text : List Char) : ∀ elements : List Element,
    (resourcesOfAll text elements).externalScripts.map (·.src) =
        (tagsOfAll elements).filterMap (scriptSource? ·.2) ∧
      (resourcesOfAll text elements).externalStyles.map (·.href) =
        (tagsOfAll elements).filterMap (styleSource? ·.2)
  | [] => ⟨rfl, rfl⟩
  | element :: rest => by
    obtain ⟨hscripts, hstyles⟩ := externals_resourcesOf text element
    obtain ⟨hscripts', hstyles'⟩ := externals_resourcesOfAll text rest
    rw [resourcesOfAll, tagsOfAll, List.filterMap_append, List.filterMap_append]
    constructor
    · simp only [Resources.merge, List.map_append, hscripts, hscripts']
    · simp only [Resources.merge, List.map_append, hstyles, hstyles']

end

/-! ## Tags of a reader -/

/-- The tags of open and complete elements, in the order of the text. -/
def Reader.tags (r : Reader) : List (Nat × Tag) :=
  tagsOfAll r.roots.reverse ++
    r.opened.reverse.flatMap fun frame => (frame.start, frame.tag) :: tagsOfAll frame.children.reverse

namespace Reader

theorem tags_node (r : Reader) (stop : Nat) : (r.node stop).tags = r.tags := by
  unfold node tags
  split
  · rename_i frame outer hopened
    simp [hopened]
  · rfl

theorem tags_add (r : Reader) (element : Element) (stop : Nat) :
    (r.add element stop).tags = r.tags ++ tagsOf element := by
  unfold add tags
  split
  · rename_i frame outer hopened
    simp [hopened, tagsOfAll_append, tagsOfAll_singleton]
  · rename_i hopened
    simp [hopened, tagsOfAll_append, tagsOfAll_singleton]

theorem tags_push (r : Reader) (start : Nat) (tag : Tag) (stop : Nat) :
    (r.push start tag stop).tags = r.tags ++ [(start, tag)] := by
  simp [push, tags, tagsOfAll]

/-- An element that ends keeps its tags where they are. -/
theorem tags_close (r : Reader) (stop : Nat) : (r.close stop).tags = r.tags := by
  unfold close
  split
  · rfl
  · rename_i frame outer hopened
    rw [tags_add]
    simp [tags, hopened, tagsOf]

end Reader

theorem tags_closePage (stop : Nat) : ∀ (n : Nat) (r : Reader), (closePage stop n r).tags = r.tags
  | 0, _ => rfl
  | n + 1, r => by
    unfold closePage
    split
    · split
      · rw [tags_closePage stop n, Reader.tags_close]
      · rfl
    · rfl

theorem tags_closeAll (stop : Nat) : ∀ (n : Nat) (r : Reader), (closeAll stop n r).tags = r.tags
  | 0, _ => rfl
  | n + 1, r => by
    unfold closeAll
    split
    · rfl
    · rw [tags_closeAll stop n, Reader.tags_close]

/-- The roots and the elements inside open ones are among the tags. -/
theorem tagsOfAll_roots_sublist (r : Reader) : (tagsOfAll r.roots.reverse).Sublist r.tags :=
  List.sublist_append_left _ _

theorem tagsOfAll_spilled_sublist (r : Reader) : (tagsOfAll (spilled r)).Sublist r.tags := by
  unfold spilled Reader.tags
  rw [tagsOfAll_append, tagsOfAll_flatMap]
  refine List.Sublist.append_left ?_ _
  induction r.opened.reverse with
  | nil => exact .slnil
  | cons frame frames ih =>
    rw [List.flatMap_cons, List.flatMap_cons, List.cons_append]
    exact .cons _ (ih.append_left _)

theorem tagsOfAll_finish_sublist (text : List Char) (stop : Nat) (r : Reader) :
    (tagsOfAll (finish text stop r)).Sublist r.tags := by
  rw [← tags_closePage stop r.opened.length r]
  unfold finish
  simp only
  split
  · exact tagsOfAll_roots_sublist _
  · split
    · rw [← tags_closeAll _ _ (closePage stop r.opened.length r)]
      exact tagsOfAll_roots_sublist _
    · exact tagsOfAll_spilled_sublist _

/-! ## Steps of a reader -/

open Cursor (At Follows InOrder)

/-- Whether a tag starts at a cursor: its name after the `<`, and its attributes up to where it ends. -/
def StartsTag (c : Cursor) (tag : Tag) : Prop :=
  c.rest.head? = some '<' ∧
    let named := passBlanks (c.skip 1)
    let chars := tagName named.rest
    tag.name = nameOf chars ∧
      ∃ (fuel : Nat) (ending : TagEnd) (after : Cursor), ending ≠ .broken ∧
        attributesFrom fuel [] (named.skip chars.length) = (tag.attributes, ending, after)

variable {text : List Char}

theorem attributeValue_eq_skip {c after : Cursor} {value : String}
    (h : attributeValue c = some (value, after)) : ∃ n, after = c.skip n := by
  unfold attributeValue at h
  split at h
  · cases h
  · simp only at h
    split at h
    · rw [Option.ite_none_right_eq_some, Option.some.injEq, Prod.mk.injEq] at h
      exact ⟨_, h.2.2.symm⟩
    · rw [Option.some.injEq, Prod.mk.injEq] at h
      exact ⟨_, h.2.symm⟩

theorem follows_passBlanks {c d : Cursor} (h : Follows text c d) : Follows text c (passBlanks d) :=
  h.skip _

/-- A tag that ends does so further on in the text. -/
theorem follows_attributesFrom : ∀ {n : Nat} {found attributes : List Attribute} {c after : Cursor}
    {ending : TagEnd}, attributesFrom n found c = (attributes, ending, after) → ending ≠ .broken →
    At text c → Follows text c after
  | 0, _, _, _, _, _, h, hending, _ => by
    rw [attributesFrom] at h
    cases h
    exact absurd rfl hending
  | n + 1, found, attributes, c, after, ending, h, hending, hc => by
    have hhere := follows_passBlanks (.refl hc)
    rw [attributesFrom] at h
    simp only at h
    split at h
    · cases h
      exact absurd rfl hending
    · cases h
      exact hhere.skip 1
    · cases h
      exact .refl hc
    · cases h
      exact hhere.skip 2
    · split at h
      · exact (hhere.skip 1).trans (follows_attributesFrom h hending (hhere.skip 1).1)
      · have hbare := hhere.skip ((passBlanks c).rest.takeWhile isAttributeChar).length
        split at h
        · have hvalue := follows_passBlanks ((follows_passBlanks hbare).skip 1)
          split at h
          · cases h
            exact absurd rfl hending
          · rename_i value stop hstop
            obtain ⟨m, rfl⟩ := attributeValue_eq_skip hstop
            exact (hvalue.skip m).trans (follows_attributesFrom h hending (hvalue.skip m).1)
        · exact hbare.trans (follows_attributesFrom h hending hbare.1)

/-- What a step from a place does: it goes on in the text, and leaves the tags as they are or adds the one
that starts at the place. -/
structure Steps (text : List Char) (r : Reader) (c : Cursor) (r' : Reader) (after : Cursor) : Prop where
  follows : Follows text c after
  tags : r'.tags = r.tags ∨ ∃ tag, StartsTag c tag ∧ c.offset < after.offset ∧
    r'.tags = r.tags ++ [(c.offset, tag)]

theorem Steps.of_tags_eq {r r' : Reader} {c after : Cursor} (hafter : Follows text c after)
    (h : r'.tags = r.tags) : Steps text r c r' after := ⟨hafter, .inl h⟩

theorem steps_node {r : Reader} {c : Cursor} (hc : At text c) (n stop : Nat) :
    Steps text r c (r.node stop) (c.skip n) :=
  .of_tags_eq ((Follows.refl hc).skip n) (r.tags_node stop)

theorem tagsOf_rawElement? {start : Nat} {tag : Tag} {c stop : Cursor} {element : Element}
    (h : rawElement? start tag c = some (element, stop)) (hc : At text c) :
    tagsOf element = [(start, tag)] ∧ Follows text c stop := by
  unfold rawElement? at h
  obtain ⟨n, -, hn⟩ := Option.map_eq_some_iff.1 h
  rw [Prod.mk.injEq] at hn
  refine ⟨?_, ?_⟩
  · rw [← hn.1, tagsOf, tagsOfAll]
  · rw [← hn.2]
    exact ((Follows.refl hc).skip _).skip _

theorem steps_startTag? {fuel : Nat} {r r' : Reader} {c after : Cursor} (hc : At text c)
    (hhead : c.rest.head? = some '<') (h : startTag? fuel r c = some (r', after)) :
    Steps text r c r' after := by
  unfold startTag? at h
  simp only at h
  split at h
  · rw [Option.some.injEq, stray, Prod.mk.injEq] at h
    rw [← h.1, ← h.2]
    exact steps_node hc 1 _
  · generalize hattributes : attributesFrom fuel [] _ = result at h
    obtain ⟨attributes, ending, stop⟩ := result
    simp only at h
    have hrest : c.rest ≠ [] := by
      intro hnil
      rw [hnil] at hhead
      cases hhead
    have hnamed : Follows text (c.skip 1) _ := follows_passBlanks (.refl (hc.skip 1))
    have hstop : ending ≠ .broken → Follows text c stop ∧ c.offset < stop.offset ∧
        StartsTag c ⟨nameOf (tagName (passBlanks (c.skip 1)).rest), attributes⟩ := by
      intro hending
      have hname := hnamed.skip (tagName (passBlanks (c.skip 1)).rest).length
      have hstop := hname.trans (follows_attributesFrom hattributes hending hname.1)
      have hlt := Nat.lt_of_lt_of_le (Cursor.lt_offset_skip Nat.one_pos hrest) hstop.2
      exact ⟨⟨hstop.1, Nat.le_of_lt hlt⟩, hlt, hhead, rfl, fuel, ending, stop, hending, hattributes⟩
    split at h
    · cases h
    · obtain ⟨hfollows, hlt, hstarts⟩ := hstop (by simp)
      split at h
      · rw [Option.some.injEq, Prod.mk.injEq] at h
        rw [← h.1, ← h.2]
        exact .of_tags_eq hfollows (r.tags_node _)
      · rw [Option.some.injEq, Prod.mk.injEq] at h
        rw [← h.1, ← h.2]
        refine ⟨hfollows, .inr ⟨_, hstarts, hlt, ?_⟩⟩
        rw [Reader.tags_add, tagsOf, tagsOfAll]
    · obtain ⟨hfollows, hlt, hstarts⟩ := hstop (by simp)
      split at h
      · obtain ⟨⟨element, last⟩, hraw, hlast⟩ := Option.map_eq_some_iff.1 h
        rw [Prod.mk.injEq] at hlast
        obtain ⟨htags, hgoes⟩ := tagsOf_rawElement? hraw hfollows.1
        rw [← hlast.1, ← hlast.2]
        refine ⟨hfollows.trans hgoes, .inr ⟨_, hstarts, Nat.lt_of_lt_of_le hlt hgoes.2, ?_⟩⟩
        rw [Reader.tags_add, htags]
      · rw [Option.some.injEq, Prod.mk.injEq] at h
        rw [← h.1, ← h.2]
        exact ⟨hfollows, .inr ⟨_, hstarts, hlt, Reader.tags_push _ _ _ _⟩⟩

theorem steps_endTag {r : Reader} {c : Cursor} (hc : At text c) :
    Steps text r c (endTag r c).1 (endTag r c).2 := by
  unfold endTag
  simp only
  split
  · exact steps_node hc 2 _
  · split
    · exact .of_tags_eq ((Follows.refl hc).skip _) (r.tags_close _)
    · split
      · exact .of_tags_eq (.refl hc) (r.tags_close _)
      · exact steps_node hc _ _

theorem steps_step? {fuel : Nat} {r r' : Reader} {c after : Cursor} (hc : At text c)
    (h : step? fuel r c = some (r', after)) : Steps text r c r' after := by
  unfold step? at h
  split at h
  · rw [Option.some.injEq, Prod.mk.injEq] at h
    rw [← h.1, ← h.2]
    exact .of_tags_eq ((Follows.refl hc).skip _) rfl
  · split at h
    · split at h
      · rw [Option.some.injEq, Prod.mk.injEq] at h
        rw [← h.1, ← h.2]
        exact steps_node hc _ _
      · rw [Option.some.injEq, Prod.mk.injEq] at h
        rw [← h.1, ← h.2]
        exact .of_tags_eq ((Follows.refl hc).skip 2) rfl
    · rw [Option.some.injEq] at h
      have hends := steps_endTag (r := r) hc
      rwa [h] at hends
    · rename_i hrest
      split at h
      · rw [Option.some.injEq, Prod.mk.injEq] at h
        rw [← h.1, ← h.2]
        exact .of_tags_eq (.refl hc) (r.tags_close _)
      · exact steps_startTag? hc (by rw [hrest]; rfl) h
    · rw [Option.some.injEq, Prod.mk.injEq] at h
      rw [← h.1, ← h.2]
      exact steps_node hc _ _
    · rw [Option.some.injEq, stray, Prod.mk.injEq] at h
      rw [← h.1, ← h.2]
      exact steps_node hc 1 _
    · rw [Option.some.injEq, Prod.mk.injEq] at h
      rw [← h.1, ← h.2]
      exact steps_node hc _ _

/-! ## Reading a page -/

/-- What holds while a page is read: the tags stand in order, before the place of the reader. -/
structure Reads (text : List Char) (r : Reader) (c : Cursor) : Prop where
  at_ : At text c
  inOrder : InOrder StartsTag text r.tags
  before : ∀ entry ∈ r.tags, entry.1 < c.offset

theorem Reads.follows {r : Reader} {c after : Cursor} (h : Reads text r c)
    (hafter : Follows text c after) : Reads text r after :=
  ⟨hafter.1, h.inOrder, fun entry hentry => Nat.lt_of_lt_of_le (h.before entry hentry) hafter.2⟩

theorem Reads.step {r r' : Reader} {c after : Cursor} (h : Reads text r c)
    (hstep : Steps text r c r' after) : Reads text r' after := by
  rcases hstep.tags with htags | ⟨tag, hstarts, hlt, htags⟩
  · obtain ⟨hat, horder, hbefore⟩ := h.follows hstep.follows
    exact ⟨hat, htags ▸ horder, htags ▸ hbefore⟩
  · refine ⟨hstep.follows.1, ?_, ?_⟩
    · rw [htags]
      refine h.inOrder.append (.singleton h.at_ hstarts) ?_
      intro entry hentry other hother
      rw [List.mem_singleton.1 hother]
      exact h.before entry hentry
    · intro entry hentry
      rw [htags, List.mem_append, List.mem_singleton] at hentry
      rcases hentry with hentry | rfl
      · exact Nat.lt_of_lt_of_le (h.before entry hentry) hstep.follows.2
      · exact hlt

theorem inOrder_readFrom : ∀ (n : Nat) {r : Reader} {c : Cursor}, Reads text r c →
    InOrder StartsTag text (tagsOfAll (readFrom text n r c))
  | 0, r, c, h => h.inOrder.sublist (tagsOfAll_finish_sublist _ _ _)
  | n + 1, r, c, h => by
    have hhere : Reads text r (passBlanks c) := h.follows (follows_passBlanks (.refl h.at_))
    rw [readFrom]
    split
    · exact h.inOrder.sublist (tagsOfAll_finish_sublist _ _ _)
    · split
      · rename_i hstep
        exact inOrder_readFrom n (hhere.step (steps_step? hhere.at_ hstep))
      · exact h.inOrder.sublist (tagsOfAll_spilled_sublist _)

/-- The tags of a page stand in the order of its text, each where it starts. -/
theorem inOrder_readPage (text : List Char) : InOrder StartsTag text (tagsOfAll (readPage text)) :=
  inOrder_readFrom _ ⟨Cursor.at_ofText text, .nil, by rintro _ ⟨⟩⟩

end AssetAudit.Page
