import AssetAudit.Proofs.LinkRelation
import AssetAudit.Proofs.SpelledImport

/-!
# References that a search finds as they stand

A page is searched for script and link tags, a style sheet for imports. Where these are written so that
the search cannot mistake them, and nothing else looks like one (`PlainPage`, `PlainSheet`), it finds what a
reader of the text reads: the sources of scripts (`PlainPage.findings_scriptAt?`), the addresses
of style sheets (`PlainPage.findings_linkAt?`) and of imports (`PlainSheet.findings_importAt?`).
-/
namespace AssetAudit

open Cursor (At InOrder)

namespace Dependency

open Page (SpelledAttribute Spells StartsTag)

/-! ## Finds at entries -/

/-- What is found in a text is found at the entries of a reader that misses no find. -/
theorem findings_eq_filterMap {α β : Type} {Starts : Cursor → α → Prop}
    {at? : List Char → Option (β × List Char)} {text : List Char} {entries : List (Nat × α)}
    (horder : InOrder Starts text entries) (hnil : at? [] = none) (hseparate : Separate at? text)
    (hall : ∀ place, place <:+ text → at? place ≠ none →
      ∃ entry ∈ entries, Text.dropBytes text entry.1 = place) :
    findings at? text.length text =
      entries.filterMap fun entry => (at? (Text.dropBytes text entry.1)).map (·.1) := by
  have hsorted : (entries.map fun entry => Text.dropBytes text entry.1).Pairwise
      fun place later => later.length < place.length := by
    refine List.pairwise_map.2 (horder.sorted.imp_of_mem ?_)
    intro entry other hentry hother hlt
    obtain ⟨c, hc, hoffset, -⟩ := horder.starts entry hentry
    obtain ⟨d, hd, hoffset', -⟩ := horder.starts other hother
    rw [← hoffset, ← hoffset', hc.dropBytes_eq, hd.dropBytes_eq]
    exact hc.length_lt hd (by omega)
  have hsuffix : ∀ place ∈ entries.map fun entry => Text.dropBytes text entry.1, place <:+ text := by
    intro place hplace
    obtain ⟨entry, hentry, rfl⟩ := List.mem_map.1 hplace
    obtain ⟨c, hc, hoffset, -⟩ := horder.starts entry hentry
    rw [← hoffset, hc.dropBytes_eq]
    exact hc.suffix
  rw [findings_eq hnil (Nat.le_refl _) hseparate, filterMap_tails_eq hsorted hsuffix, List.filterMap_map]
  · rfl
  · intro place hplace hfound
    obtain ⟨entry, hentry, rfl⟩ := hall place hplace fun hnone => hfound (by rw [hnone]; rfl)
    exact List.mem_map_of_mem hentry

/-! ## Tags -/

section Tag

variable {word : List Char} {α : Type} {at? : List Char → Option α} {text rest : List Char}
  {attributes : List SpelledAttribute}

/-- The blanks that the search for a tag asks for are there, unless there is nothing to find. -/
theorem bind_afterBlanks?_eq (hne : word ≠ []) (hword : ∀ c ∈ word, c.isAlpha = true)
    (hat : ∀ text, attributeAt? word text = none → at? text = none) (h : Spells text attributes rest)
    (hexposes : Exposes word attributes) :
    (afterBlanks? text).bind (lastInTag? at?) = lastInTag? at? text := by
  obtain ⟨gap, c, back, htext, hgap, hc, -, -⟩ := h.exists_gap
  rcases eq_or_ne gap [] with rfl | hgapne
  · have hnil : attributes = [] := by
      cases h with
      | close | selfClose => rfl
      | @cons front _ _ _ _ _ _ _ hfront hfrontne =>
        obtain ⟨d, front, rfl⟩ := List.exists_cons_of_ne_nil hfrontne
        have hd : d = c := (List.cons.inj htext).1
        rw [← hd, Text.isBlank_of_isAsciiBlank (hfront d List.mem_cons_self)] at hc
        cases hc
    subst hnil
    rw [lastInTag?_eq_none hne hword hat h hexposes (by rintro _ ⟨⟩), htext, List.nil_append,
      afterBlanks?, if_neg (by rw [hc]; decide)]
    rfl
  · rw [htext, afterBlanks?_append hgap hgapne, Option.bind_some, Text.trimStart_cons hc,
      lastInTag?_gap hne hword hat hgap]

/-- The attribute of a name that is read is the one that stands for it, or there is none. -/
theorem Exposes.attribute?_cases {tag : Page.Tag} (hexposes : Exposes word attributes)
    (hlower : word.map Char.toLower = word) (hascii : ∀ d ∈ word, 0 < d.toNat ∧ d.toNat < 128 ∧ d ≠ 'k')
    (hpairs : tag.attributes.map (fun entry => (entry.name, entry.value)) =
      attributes.map SpelledAttribute.pair) :
    (tag.attribute? (String.ofList word) = none ∧ ∀ spelled ∈ attributes, spelled.name ≠ word) ∨
      ∃ spelled ∈ attributes, spelled.name = word ∧
        tag.attribute? (String.ofList word) = some (String.ofList spelled.value) := by
  have hlabel : ∀ spelled : SpelledAttribute, (spelled.pair.1 == String.ofList word) = true ↔
      spelled.name.map Char.toLower = word := by
    intro spelled
    rw [beq_iff_eq, SpelledAttribute.pair_fst_eq_iff hascii]
  rw [Page.attribute?_eq_of_pairs hpairs]
  cases hfind : attributes.find? (·.pair.1 == String.ofList word) with
  | none =>
    refine .inl ⟨rfl, fun spelled hmem hname => ?_⟩
    refine List.find?_eq_none.1 hfind spelled hmem ((hlabel spelled).2 ?_)
    rw [hname, hlower]
  | some spelled =>
    have hmem := List.mem_of_find?_eq_some hfind
    have htest := List.find?_some hfind
    have hname := (hexposes.named spelled hmem (.inl ((hlabel spelled).1 htest))).1
    exact .inr ⟨spelled, hmem, hname, rfl⟩

end Tag

/-! ## Scripts -/

/-- Whether a place is that of a script tag whose source the search finds as it stands. -/
def PlainScript (place : List Char) : Prop :=
  ∃ text attributes rest, place = "<script".toList ++ text ∧ Spells text attributes rest ∧
    Exposes "src".toList attributes ∧ ∀ spelled ∈ attributes, spelled.quoted = true →
      ∀ inner, inner <:+ spelled.value → ¬ Calls "<script".toList inner

theorem scriptAt?_append (text : List Char) : scriptAt? ("<script".toList ++ text) =
    (afterBlanks? text).bind (lastInTag? (attributeAt? "src".toList)) := by
  unfold scriptAt?
  rw [Text.after?_eq_some_iff.2 rfl]
  rfl

/-- The source of a script is found as it is read, and the search goes on inside the tag. -/
theorem PlainScript.scriptAt?_eq {c : Cursor} {tag : Page.Tag} (h : PlainScript c.rest)
    (htag : StartsTag c tag) :
    (scriptAt? c.rest).map (·.1) = (tag.attribute? "src").map String.toList ∧
      ∀ found rest, scriptAt? c.rest = some (found, rest) → CallsOnce "<script".toList c.rest rest := by
  obtain ⟨text, attributes, rest, hplace, hspells, hexposes, hquiet⟩ := h
  have hpairs := htag.pairs_eq (by decide) (by decide)
    (show c.rest = '<' :: ("script".toList ++ text) from hplace) hspells
  have hne : "src".toList ≠ [] := by decide
  have hword : ∀ c ∈ "src".toList, c.isAlpha = true := by decide
  rw [hplace, scriptAt?_append, bind_afterBlanks?_eq hne hword (fun _ h => h) hspells hexposes]
  rcases hexposes.attribute?_cases (by decide) (by decide) hpairs with
    ⟨hread, hnone⟩ | ⟨spelled, hmem, hname, hread⟩
  · rw [lastInTag?_eq_none hne hword (fun _ h => h) hspells hexposes hnone]
    refine ⟨?_, by rintro _ _ ⟨⟩⟩
    rw [show tag.attribute? "src" = none from hread]
    rfl
  · obtain ⟨place, tail, others, hfound, htail, hsuffix, hlast⟩ :=
      lastInTag?_eq hne hword (fun _ h => h) hspells hexposes (by decide) hmem hname
    rw [hlast, hfound]
    constructor
    · rw [show tag.attribute? "src" = some (String.ofList spelled.value) from hread, Option.map_some,
        Option.map_some, String.toList_ofList]
    · intro found after hafter
      obtain ⟨-, rfl⟩ := Prod.mk.inj (Option.some.inj hafter)
      obtain ⟨inside, rfl, -, -⟩ := htail.exists_body
      refine hspells.callsOnce (by decide) (by decide) hquiet hsuffix ?_
      rw [List.length_append, List.length_cons]
      omega

/-! ## Links -/

/-- Whether a place is that of a link tag whose address and relation the search finds as they stand. The
search takes it for that of a style sheet, by the end of its address or the start of its relation, if a
word of the relation says so, and only then. -/
def PlainLink (place : List Char) : Prop :=
  ∃ text attributes rest, place = "<link".toList ++ text ∧ Spells text attributes rest ∧
    Exposes "href".toList attributes ∧ Relates attributes ∧
    (∀ spelled ∈ attributes, spelled.name = "href".toList →
      ((".css".toList <:+ spelled.value ∨
          ∃ relation ∈ attributes, IsRelation relation.name ∧ startsSheet relation.value = true) ↔
        ∃ relation ∈ attributes, IsRelation relation.name ∧ NamesSheet relation.value)) ∧
    ∀ spelled ∈ attributes, spelled.quoted = true →
      ∀ inner, inner <:+ spelled.value → ¬ Calls "<link".toList inner

theorem linkAt?_append (text : List Char) : linkAt? ("<link".toList ++ text) =
    ((afterBlanks? text).bind (lastInTag? (closedAttributeAt? "href".toList))).map fun found =>
      (if Text.endsWith ".css".toList found.1 ||
          isStylesheet (("<link".toList ++ text).take (("<link".toList ++ text).length - found.2.length))
        then some found.1 else none, found.2) := by
  unfold linkAt?
  rw [Text.after?_eq_some_iff.2 rfl]
  simp only [Option.bind_eq_bind, Option.bind_some]
  cases afterBlanks? text with
  | none => rfl
  | some after =>
    simp only [Option.bind_some]
    cases lastInTag? (closedAttributeAt? "href".toList) after <;> rfl

theorem closedAttributeAt?_eq {word place value tail rest : List Char} {others : List SpelledAttribute}
    (hfound : attributeAt? word place = some (value, tail)) (htail : Spells tail others rest) :
    closedAttributeAt? word place = some (value, rest) := by
  obtain ⟨inside, rfl, hinside, -⟩ := htail.exists_body
  have hdrop : (inside ++ '>' :: rest).dropWhile (· != '>') = '>' :: rest :=
    Text.dropWhile_front (fun c hc => bne_iff_ne.2 fun h => hinside (h ▸ hc)) rfl
  unfold closedAttributeAt?
  rw [hfound]
  simp only [Option.bind_eq_bind, Option.bind_some, hdrop]

/-- The whole text of a link is searched for its relation. -/
theorem isStylesheet_take {text rest : List Char} {attributes : List SpelledAttribute}
    (h : Spells text attributes rest) (hrelates : Relates attributes) :
    isStylesheet (("<link".toList ++ text).take (("<link".toList ++ text).length - rest.length)) = true ↔
      ∃ spelled ∈ attributes, IsRelation spelled.name ∧ startsSheet spelled.value = true := by
  obtain ⟨inside, rfl, -, hspells⟩ := h.exists_body
  have htag : ("<link".toList ++ (inside ++ '>' :: rest)).take
      (("<link".toList ++ (inside ++ '>' :: rest)).length - rest.length) =
      "<link".toList ++ (inside ++ ['>']) := by
    have htext : "<link".toList ++ (inside ++ '>' :: rest) =
        "<link".toList ++ (inside ++ ['>']) ++ rest := by simp
    rw [htext, List.length_append, Nat.add_sub_cancel, List.take_left]
  have hword : isStylesheet ("<link".toList ++ (inside ++ ['>'])) = isStylesheet (inside ++ ['>']) := rfl
  rw [htag, hword]
  exact isStylesheet_iff hspells hrelates rfl

/-- The address of a link is found if it is read as that of a style sheet, and the search goes on behind
the tag. -/
theorem PlainLink.linkAt?_eq {c : Cursor} {tag : Page.Tag} (h : PlainLink c.rest)
    (htag : StartsTag c tag) :
    (linkAt? c.rest).bind (·.1) =
        (if Page.linksStyle tag = true then tag.attribute? "href" else none).map String.toList ∧
      ∀ found rest, linkAt? c.rest = some (found, rest) → CallsOnce "<link".toList c.rest rest := by
  obtain ⟨text, attributes, rest, hplace, hspells, hexposes, hrelates, hlisted, hquiet⟩ := h
  have hpairs := htag.pairs_eq (by decide) (by decide)
    (show c.rest = '<' :: ("link".toList ++ text) from hplace) hspells
  have hne : "href".toList ≠ [] := by decide
  have hword : ∀ c ∈ "href".toList, c.isAlpha = true := by decide
  have hat : ∀ text, attributeAt? "href".toList text = none →
      closedAttributeAt? "href".toList text = none := by
    intro text h
    unfold closedAttributeAt?
    rw [h]
    rfl
  rw [hplace, linkAt?_append, bind_afterBlanks?_eq hne hword hat hspells hexposes]
  rcases hexposes.attribute?_cases (by decide) (by decide) hpairs with
    ⟨hread, hnone⟩ | ⟨spelled, hmem, hname, hread⟩
  · rw [lastInTag?_eq_none hne hword hat hspells hexposes hnone,
      show tag.attribute? "href" = none from hread]
    refine ⟨?_, by rintro _ _ ⟨⟩⟩
    split <;> rfl
  · obtain ⟨place, tail, others, hfound, htail, hsuffix, hlast⟩ :=
      lastInTag?_eq hne hword hat hspells hexposes (by decide) hmem hname
    rw [hlast, closedAttributeAt?_eq hfound htail, Option.map_some,
      show tag.attribute? "href" = some (String.ofList spelled.value) from hread]
    constructor
    · have hcounts : (Text.endsWith ".css".toList spelled.value || isStylesheet
          (("<link".toList ++ text).take (("<link".toList ++ text).length - rest.length))) = true ↔
          Page.linksStyle tag = true := by
        rw [Bool.or_eq_true, Text.endsWith_iff, isStylesheet_take hspells hrelates,
          hrelates.linksStyle_iff hpairs]
        exact hlisted spelled hmem hname
      by_cases hstyle : Page.linksStyle tag = true
      · simp only [hcounts.2 hstyle, hstyle, if_true, Option.bind_some, Option.map_some,
          String.toList_ofList]
      · have hnone := mt hcounts.1 hstyle
        rw [Bool.not_eq_true] at hnone
        simp only [hnone, hstyle, Option.bind_some]
        rfl
    · intro found after hafter
      obtain ⟨-, rfl⟩ := Prod.mk.inj (Option.some.inj hafter)
      obtain ⟨inside, rfl, -, -⟩ := hspells.exists_body
      exact hspells.callsOnce (by decide) (by decide) hquiet ⟨inside ++ ['>'], by simp⟩ (Nat.le_refl _)

/-! ## Pages -/

/-- Whether the scripts and links of a page are written so that a search finds them as they stand, and it
finds none elsewhere. -/
structure PlainPage (text : List Char) : Prop where
  scripts : ∀ entry ∈ Page.tagsOfAll (Page.readPage text), entry.2.name = "script" →
    PlainScript (Text.dropBytes text entry.1)
  links : ∀ entry ∈ Page.tagsOfAll (Page.readPage text), entry.2.name = "link" →
    PlainLink (Text.dropBytes text entry.1)
  scriptsOnly : ∀ place, place <:+ text → scriptAt? place ≠ none →
    ∃ entry ∈ Page.tagsOfAll (Page.readPage text), entry.2.name = "script" ∧
      Text.dropBytes text entry.1 = place
  linksOnly : ∀ place, place <:+ text → linkAt? place ≠ none →
    ∃ entry ∈ Page.tagsOfAll (Page.readPage text), entry.2.name = "link" ∧
      Text.dropBytes text entry.1 = place

section Page

variable {text : List Char}

/-- What is found at the tags of a name, if the search hides none of them and finds nothing elsewhere. -/
theorem findings_eq_tags {β : Type} {at? : List Char → Option (β × List Char)} {name : String}
    {word : List Char} (hnil : at? [] = none)
    (hcalls : ∀ {place : List Char} {found : β × List Char}, at? place = some found → Calls word place)
    (hall : ∀ place, place <:+ text → at? place ≠ none →
      ∃ entry ∈ Page.tagsOfAll (Page.readPage text), entry.2.name = name ∧
        Text.dropBytes text entry.1 = place)
    (honce : ∀ entry ∈ Page.tagsOfAll (Page.readPage text), entry.2.name = name → ∀ found rest,
      at? (Text.dropBytes text entry.1) = some (found, rest) →
      CallsOnce word (Text.dropBytes text entry.1) rest) :
    findings at? text.length text =
      ((Page.tagsOfAll (Page.readPage text)).filter (·.2.name == name)).filterMap
        fun entry => (at? (Text.dropBytes text entry.1)).map (·.1) := by
  refine findings_eq_filterMap ((Page.inOrder_readPage text).sublist List.filter_sublist) hnil ?_ ?_
  · refine separate_of_callsOnce hcalls fun place hplace found rest hfound => ?_
    obtain ⟨entry, hentry, hname, rfl⟩ := hall place hplace (by rw [hfound]; rintro ⟨⟩)
    exact honce entry hentry hname found rest hfound
  · intro place hplace hfound
    obtain ⟨entry, hentry, hname, hstart⟩ := hall place hplace hfound
    exact ⟨entry, List.mem_filter.2 ⟨hentry, beq_iff_eq.2 hname⟩, hstart⟩

theorem PlainPage.scriptAt?_eq (h : PlainPage text) {entry : Nat × Page.Tag}
    (hentry : entry ∈ Page.tagsOfAll (Page.readPage text)) (hname : entry.2.name = "script") :
    (scriptAt? (Text.dropBytes text entry.1)).map (·.1) =
        (Page.scriptSource? entry.2).map String.toList ∧
      ∀ found rest, scriptAt? (Text.dropBytes text entry.1) = some (found, rest) →
        CallsOnce "<script".toList (Text.dropBytes text entry.1) rest := by
  obtain ⟨c, hc, hoffset, hstarts⟩ := (Page.inOrder_readPage text).starts entry hentry
  have hscript := h.scripts entry hentry hname
  rw [← hoffset, hc.dropBytes_eq] at hscript ⊢
  rw [Page.scriptSource?, if_pos hname]
  exact hscript.scriptAt?_eq hstarts

theorem PlainPage.linkAt?_eq (h : PlainPage text) {entry : Nat × Page.Tag}
    (hentry : entry ∈ Page.tagsOfAll (Page.readPage text)) (hname : entry.2.name = "link") :
    (linkAt? (Text.dropBytes text entry.1)).bind (·.1) =
        (Page.styleSource? entry.2).map String.toList ∧
      ∀ found rest, linkAt? (Text.dropBytes text entry.1) = some (found, rest) →
        CallsOnce "<link".toList (Text.dropBytes text entry.1) rest := by
  obtain ⟨c, hc, hoffset, hstarts⟩ := (Page.inOrder_readPage text).starts entry hentry
  have hlink := h.links entry hentry hname
  rw [← hoffset, hc.dropBytes_eq] at hlink ⊢
  have hsource : Page.styleSource? entry.2 =
      if Page.linksStyle entry.2 = true then entry.2.attribute? "href" else none := by
    simp [Page.styleSource?, hname]
  rw [hsource]
  exact hlink.linkAt?_eq hstarts

/-- The scripts found in a plain page are those that are read. -/
theorem PlainPage.findings_scriptAt? (h : PlainPage text) :
    findings scriptAt? text.length text =
      ((Page.tagsOfAll (Page.readPage text)).filterMap (Page.scriptSource? ·.2)).map String.toList := by
  rw [findings_eq_tags rfl calls_of_scriptAt? h.scriptsOnly
    fun entry hentry hname => (h.scriptAt?_eq hentry hname).2, List.filterMap_filter, List.map_filterMap]
  refine List.filterMap_congr fun entry hentry => ?_
  by_cases hname : entry.2.name = "script"
  · rw [if_pos (beq_iff_eq.2 hname), (h.scriptAt?_eq hentry hname).1]
  · rw [if_neg (by simpa using hname), Page.scriptSource?, if_neg hname]
    rfl

/-- The style sheets found in a plain page are those that are read. -/
theorem PlainPage.findings_linkAt? (h : PlainPage text) :
    (findings linkAt? text.length text).filterMap id =
      ((Page.tagsOfAll (Page.readPage text)).filterMap (Page.styleSource? ·.2)).map String.toList := by
  rw [findings_eq_tags rfl calls_of_linkAt? h.linksOnly
    fun entry hentry hname => (h.linkAt?_eq hentry hname).2, List.filterMap_filter,
    List.filterMap_filterMap, List.map_filterMap]
  refine List.filterMap_congr fun entry hentry => ?_
  by_cases hname : entry.2.name = "link"
  · rw [if_pos (beq_iff_eq.2 hname), ← (h.linkAt?_eq hentry hname).1]
    cases linkAt? (Text.dropBytes text entry.1) <;> rfl
  · rw [if_neg (by simpa using hname), Page.styleSource?, if_neg fun hlink => hname hlink.1]
    rfl

end Page

/-! ## Style sheets -/

/-- Whether a place is that of an import whose address the search finds as it stands. -/
def PlainImport (place : List Char) : Prop :=
  ∃ gap target address rest, place = "@import".toList ++ (gap ++ target) ∧ Text.Blanks gap ∧ gap ≠ [] ∧
    Style.Target target address rest ∧ Style.IsAddress address

/-- Whether the imports of a sheet are written so that a search finds them as they stand, and it finds none
elsewhere. -/
structure PlainSheet (text : List Char) : Prop where
  imports : ∀ entry ∈ Style.importsOfAll (Style.readSheet text),
    PlainImport (Text.dropBytes text entry.1)
  importsOnly : ∀ place, place <:+ text → importAt? place ≠ none →
    ∃ entry ∈ Style.importsOfAll (Style.readSheet text), Text.dropBytes text entry.1 = place

/-- The imports found in a plain sheet are those that are read. -/
theorem PlainSheet.findings_importAt? {text : List Char} (h : PlainSheet text) :
    findings importAt? text.length text =
      (Style.importsOfAll (Style.readSheet text)).map fun entry => entry.2.toList := by
  have horder := Style.inOrder_readSheet text
  have hseparate : Separate importAt? text := by
    refine separate_of_callsOnce calls_of_importAt? fun place hplace found rest hfound => ?_
    obtain ⟨entry, hentry, rfl⟩ := h.importsOnly place hplace (by rw [hfound]; rintro ⟨⟩)
    obtain ⟨gap, target, address, behind, hplain, hgap, hne, htarget, haddress⟩ := h.imports entry hentry
    rw [hplain, Style.importAt?_eq hgap hne htarget haddress] at hfound
    obtain ⟨-, rfl⟩ := Prod.mk.inj (Option.some.inj hfound)
    rw [hplain]
    exact Style.callsOnce_import hgap htarget haddress
  rw [findings_eq_filterMap horder rfl hseparate h.importsOnly, ← List.filterMap_eq_map]
  refine List.filterMap_congr fun entry hentry => ?_
  obtain ⟨c, hc, hoffset, after, hrest, hread⟩ := horder.starts entry hentry
  obtain ⟨gap, target, address, behind, hplain, hgap, hne, htarget, haddress⟩ := h.imports entry hentry
  rw [← hoffset, hc.dropBytes_eq] at hplain ⊢
  have hafter : after = gap ++ target := List.append_cancel_left (hrest.symm.trans hplain)
  have haddr : entry.2.toList = address := by
    rw [hread, hafter, Style.importTarget_eq hgap htarget haddress, String.toList_ofList]
  rw [hplain, Style.importAt?_eq hgap hne htarget haddress, Function.comp_apply, haddr]
  rfl

end Dependency
end AssetAudit
