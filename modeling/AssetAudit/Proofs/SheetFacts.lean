import AssetAudit.Page.Facts
import AssetAudit.Proofs.PropertyName
import AssetAudit.Proofs.SelectorForm
import AssetAudit.Proofs.SheetImport
import Mathlib.Data.List.Infix
import Mathlib.Data.String.Basic

/-!
# Facts of style sheets that agree with each other

The facts of a sheet hold its rules in several forms: all of them, those that act outside their module,
those of each media query, and their selectors. `Facts.Coherent` says how these belong together. It holds of
the facts of a single rule and of what a media query makes of the facts inside it (`Coherent.close`),
and merging keeps it (`Coherent.merge`), so it holds of all facts that are gathered from sheets
(`coherent_of_gathered`). In the same way, the properties that gathered rules declare are those that the reader
has spelled (`Gathered.isGuarded`).
-/
namespace AssetAudit.Style

open Cursor (At Follows)

/-! ## Selectors in order -/

namespace Facts

variable {selector other : String} {selectors all : List String}

theorem mem_insertSelector : other ∈ insertSelector selector all ↔ other = selector ∨ other ∈ all := by
  induction all with
  | nil => rw [insertSelector, List.mem_singleton]; simp
  | cons first rest ih =>
    rw [insertSelector]
    split
    · rename_i hsame
      rw [beq_iff_eq.1 hsame, List.mem_cons]
      tauto
    · split
      · rw [List.mem_cons]
      · rw [List.mem_cons, ih, List.mem_cons]
        tauto

theorem pairwise_insertSelector (h : all.Pairwise (· < ·)) :
    (insertSelector selector all).Pairwise (· < ·) := by
  induction all with
  | nil => exact List.pairwise_singleton _ _
  | cons first rest ih =>
    obtain ⟨hfirst, hrest⟩ := List.pairwise_cons.1 h
    rw [insertSelector]
    split
    · exact h
    · rename_i hother
      split
      · rename_i hbefore
        refine List.pairwise_cons.2 ⟨?_, h⟩
        intro s hs
        rcases List.mem_cons.1 hs with rfl | hs
        · exact hbefore
        · exact hbefore.trans (hfirst s hs)
      · rename_i hafter
        have hlt : first < selector :=
          (lt_or_gt_of_ne fun heq => hother (beq_iff_eq.2 heq)).resolve_left hafter
        refine List.pairwise_cons.2 ⟨?_, ih hrest⟩
        intro s hs
        rcases mem_insertSelector.1 hs with rfl | hs
        · exact hlt
        · exact hfirst s hs

theorem mem_insertSelectors : other ∈ insertSelectors selectors all ↔ other ∈ selectors ∨ other ∈ all := by
  induction selectors with
  | nil => exact ⟨Or.inr, fun h => h.resolve_left (by rintro ⟨⟩)⟩
  | cons selector selectors ih =>
    rw [insertSelectors, List.foldr_cons, mem_insertSelector, ← insertSelectors, ih, List.mem_cons, or_assoc]

theorem pairwise_insertSelectors (h : all.Pairwise (· < ·)) :
    (insertSelectors selectors all).Pairwise (· < ·) := by
  induction selectors with
  | nil => exact h
  | cons selector selectors ih => exact pairwise_insertSelector ih

end Facts

/-! ## The selectors and properties of items -/

/-- Whether a selector is not empty and its own spelling. -/
def IsNormalSelector (selector : String) : Prop :=
  selector ≠ "" ∧ String.ofList (Selector.normalize selector.toList) = selector

theorem isNormalSelector_of_mem_selectorTexts {text : List Char} {found : List Span} {selector : String}
    (h : selector ∈ selectorTexts text found) : IsNormalSelector selector := by
  obtain ⟨hmem, hne⟩ := List.mem_filter.1 h
  obtain ⟨span, -, rfl⟩ := List.mem_map.1 hmem
  refine ⟨?_, ?_⟩
  · intro hempty
    rw [hempty] at hne
    cases hne
  · rw [String.toList_ofList, Selector.normalize_normalize]

mutual

/-- Whether the rules in an item have normal selectors, and its declarations guarded properties. -/
def Item.IsNormal : Item → Prop
  | .rule _ selectors block => (∀ s ∈ selectors, IsNormalSelector s) ∧ AreNormal block
  | .declaration declaration => isGuarded declaration.property.toList = true
  | .media _ _ block => AreNormal block
  | .importing _ _ => True
  | .keyframes _ _ => True
  | .group block => AreNormal block

def AreNormal : List Item → Prop
  | [] => True
  | item :: rest => item.IsNormal ∧ AreNormal rest

end

theorem areNormal_iff {items : List Item} : AreNormal items ↔ ∀ item ∈ items, item.IsNormal := by
  induction items with
  | nil => simp [AreNormal]
  | cons item rest ih => rw [AreNormal, ih, List.forall_mem_cons]

/-- What a step of the reader keeps. -/
def Step.IsNormal : Step → Prop
  | .item found _ => found.IsNormal
  | .nothing _ | .lost _ => True
  | .ended kept => AreNormal kept

theorem isNormal_finish {block : Block} {nested : Bool} {build : Nat → List Item → Item}
    (hbuild : ∀ stop items, AreNormal items → (build stop items).IsNormal)
    (h : AreNormal block.items) : (block.finish nested build).IsNormal := by
  unfold Block.finish
  split
  · exact hbuild _ _ h
  · split
    · exact hbuild _ _ h
    · exact h

theorem isNormal_importFrom (fuel start : Nat) (c : Cursor) :
    (importFrom fuel start c).IsNormal := by
  unfold importFrom
  simp only
  split
  · trivial
  · split <;> trivial
  · split <;> trivial

theorem isNormal_keyframesFrom (fuel start : Nat) (c : Cursor) :
    (keyframesFrom fuel start c).IsNormal := by
  unfold keyframesFrom
  simp only
  split
  · trivial
  · split
    · trivial
    · split
      · trivial
      · split <;> trivial

theorem isNormal_declaration? {text : List Char} {inBlock : Bool} {fuel : Nat} {c : Cursor}
    {step : Step} (hc : At text c) (h : declaration? text inBlock fuel c = some step) : step.IsNormal := by
  unfold declaration? at h
  simp only at h
  split at h
  · split at h
    · cases h
    · split at h
      · obtain rfl := Option.some.inj h
        exact isGuarded_property hc _
      · split at h
        · obtain rfl := Option.some.inj h
          exact isGuarded_property hc _
        · obtain rfl := Option.some.inj h
          trivial
      · obtain rfl := Option.some.inj h
        trivial
  · cases h

/-- The reader spells the selectors of every rule and the properties of every declaration, by induction on the
bound that blocks and their items share. -/
theorem isNormal_items (text : List Char) (n : Nat) :
    (∀ inBlock lost found stop c, At text c → AreNormal found →
      AreNormal (itemsFrom text inBlock n lost found stop c).items) ∧
    ∀ inBlock c, At text c → (itemAt text inBlock n c).IsNormal := by
  have hreverse : ∀ {found : List Item}, AreNormal found → AreNormal found.reverse := by
    intro found h
    rw [areNormal_iff] at h ⊢
    exact fun item hitem => h item (List.mem_reverse.1 hitem)
  induction n with
  | zero => exact ⟨fun _ _ _ _ _ _ hfound => hreverse hfound, fun _ _ _ => trivial⟩
  | succ n ih =>
    obtain ⟨ihItems, ihItem⟩ := ih
    constructor
    · intro inBlock lost found stop c hc hfound
      have hhere := (follows_next (.refl hc)).1
      rw [itemsFrom]
      simp only
      split
      · exact hreverse hfound
      · split
        · exact hreverse hfound
        · split
          · split
            · refine ihItems _ _ _ _ _ (hhere.skip 1) ?_
              rw [areNormal_iff] at hfound ⊢
              exact fun item hitem => hfound item (List.mem_filter.1 hitem).1
            · exact ihItems _ _ _ _ _ (hhere.skip _) hfound
          · have hitem := ihItem inBlock (next c) hhere
            have hkeeps := (keeps_items n).2 inBlock (next c) hhere
            split
            · rename_i item after hstep
              rw [hstep] at hitem hkeeps
              refine ihItems _ _ _ _ _ hkeeps.1.1 ?_
              rw [AreNormal]
              exact ⟨hitem, hfound⟩
            · rename_i after hstep
              rw [hstep] at hkeeps
              exact ihItems _ _ _ _ _ hkeeps.1 hfound
            · rename_i after hstep
              rw [hstep] at hkeeps
              refine ihItems _ _ _ _ _ ?_ hfound
              split
              · exact hhere.skip 1
              · exact hkeeps.1
            · rename_i kept hstep
              rw [hstep] at hitem
              have hkept : AreNormal kept := hitem
              have hfront := hreverse hfound
              rw [areNormal_iff] at hkept hfront ⊢
              intro item hmem
              exact (List.mem_append.1 hmem).elim (hfront item) (hkept item)
    · intro inBlock c hc
      have hblock : ∀ {build : Nat → List Item → Item} {brace : Cursor} (stop : Nat), At text brace →
          (∀ stop items, AreNormal items → (build stop items).IsNormal) →
          ((itemsFrom text true n false [] stop (brace.skip 1)).finish inBlock build).IsNormal := by
        intro build brace stop hbrace hbuild
        exact isNormal_finish hbuild (ihItems true false [] stop _ (hbrace.skip 1) trivial)
      rw [itemAt]
      split
      · simp only
        split
        · exact isNormal_importFrom _ _ _
        · split
          · exact isNormal_keyframesFrom _ _ _
          · have hprelude := fun semicolon =>
              (follows_preludeEnd semicolon n ((Follows.refl hc).skip (String.length (String.ofList
                (c.rest.tail.takeWhile fun ch => ch.isAlpha || ch == '-' || ch == '_')) + 1))).1
            split
            · trivial
            · split
              · split
                · exact hblock _ (hprelude _) fun _ _ h => h
                · exact hblock _ (hprelude _) fun _ _ h => h
              · split <;> trivial
      · split
        · rename_i step hstep
          exact isNormal_declaration? hc hstep
        · split
          · trivial
          · rename_i stop hstop
            have hlist := follows_selectorList inBlock n false [⟨c.offset, stop.offset⟩]
              (follows_selector? (.refl hc) hstop)
            split
            · trivial
            · rename_i found brace hbrace
              rw [hbrace] at hlist
              exact hblock _ hlist.1 fun _ _ h => ⟨fun s hs => isNormalSelector_of_mem_selectorTexts hs, h⟩

theorem areNormal_readSheet (text : List Char) : AreNormal (readSheet text) := by
  unfold readSheet
  simp only
  split
  · exact (isNormal_items text _).1 _ _ _ _ _ ((Cursor.at_ofText text).skip 1) trivial
  · exact (isNormal_items text _).1 _ _ _ _ _ (Cursor.at_ofText text) trivial

/-! ## Coherent facts -/

/-- Whether a media query holds a rule where it stands in a list of rules, between `front` and `back`. -/
def MediaQuery.Covers (query : MediaQuery) (front : List Rule) (rule : Rule) (back : List Rule) : Prop :=
  ∃ a b, query.rules = a ++ rule :: b ∧ a <:+ front ∧ b <+: back

theorem MediaQuery.Covers.mono {query : MediaQuery} {front front' back back' : List Rule} {rule : Rule}
    (h : query.Covers front rule back) (hfront : front <:+ front') (hback : back <+: back') :
    query.Covers front' rule back' := by
  obtain ⟨a, b, hrules, ha, hb⟩ := h
  exact ⟨a, b, hrules, ha.trans hfront, hb.trans hback⟩

namespace Facts

/-- How the facts found under a policy belong together. `around` is the media query that is open around
them, and not yet among them. -/
structure Coherent (exclude : Bool) (around : Option String) (facts : Facts) : Prop where
  /-- Every rule has a selector. -/
  selected : ∀ rule ∈ facts.rules, rule.selectors ≠ []
  /-- Every selector has its one spelling. -/
  spelled : ∀ rule ∈ facts.rules, ∀ s ∈ rule.selectors, IsNormalSelector s
  /-- The rules that act outside their module are those that one of their selectors makes so. -/
  globalRules_eq : facts.globalRules = facts.rules.filter fun rule =>
    Selector.anyGlobal exclude rule.selectors
  /-- The selectors stand in order, each once. -/
  ordered : facts.selectors.Pairwise (· < ·)
  /-- The selectors are those of the rules. -/
  mem_selectors : ∀ s, s ∈ facts.selectors ↔ ∃ rule ∈ facts.rules, s ∈ rule.selectors
  /-- The rules of a media query stand together among the rules. -/
  segment : ∀ query ∈ facts.mediaQueries, query.rules <:+: facts.rules
  /-- The rules of a media query know that they are in one. -/
  inMedia : ∀ query ∈ facts.mediaQueries, ∀ rule ∈ query.rules, rule.media.isSome
  /-- Below an open media query every rule is in one. -/
  inAround : around.isSome → ∀ rule ∈ facts.rules, rule.media.isSome
  /-- A rule in a media query is among the rules of one that is so called, where it stands. -/
  covered : ∀ front rule back name, facts.rules = front ++ rule :: back → rule.media = some name →
    around ≠ some name → ∃ query ∈ facts.mediaQueries, query.query = name ∧ query.Covers front rule back

variable {exclude : Bool} {around : Option String}

theorem coherent_of_no_rules (imports : List ImportRule) (keyframes : List Keyframes) :
    Coherent exclude around ⟨[], [], [], [], imports, keyframes⟩ where
  selected := by rintro _ ⟨⟩
  spelled := by rintro _ ⟨⟩
  globalRules_eq := rfl
  ordered := .nil
  mem_selectors s := ⟨by rintro ⟨⟩, by rintro ⟨_, ⟨⟩, -⟩⟩
  segment := by rintro _ ⟨⟩
  inMedia := by rintro _ ⟨⟩
  inAround := by rintro _ _ ⟨⟩
  covered front rule back name h := by
    have := congrArg List.length h
    simp at this

theorem coherent_ruleFacts (policy : Policy) (span : Span) {selectors : List String} (block : List Item)
    (h : ∀ s ∈ selectors, IsNormalSelector s) :
    Coherent policy.exclude around (ruleFacts policy around span selectors block) := by
  unfold ruleFacts
  split
  · exact coherent_of_no_rules [] []
  · rename_i hne
    constructor
    case selected =>
      intro rule hrule
      rw [List.mem_singleton.1 hrule]
      simpa using hne
    case spelled =>
      intro rule hrule
      rw [List.mem_singleton.1 hrule]
      exact h
    case globalRules_eq =>
      rw [List.filter_singleton, Bool.cond_eq_ite]
    case ordered => exact pairwise_insertSelectors .nil
    case mem_selectors =>
      intro s
      simp [mem_insertSelectors]
    case segment => rintro _ ⟨⟩
    case inMedia => rintro _ ⟨⟩
    case inAround =>
      intro haround rule hrule
      rw [List.mem_singleton.1 hrule]
      exact haround
    case covered =>
      intro front rule back name hrules hmedia hname
      have hrule : rule ∈ front ++ rule :: back := by simp
      rw [← hrules, List.mem_singleton] at hrule
      rw [hrule] at hmedia
      exact absurd hmedia hname

theorem Coherent.merge {a b : Facts} (ha : Coherent exclude around a) (hb : Coherent exclude around b) :
    Coherent exclude around (a.merge b) where
  selected rule hrule := (List.mem_append.1 hrule).elim (ha.selected rule) (hb.selected rule)
  spelled rule hrule := (List.mem_append.1 hrule).elim (ha.spelled rule) (hb.spelled rule)
  globalRules_eq := by
    rw [Facts.merge, ha.globalRules_eq, hb.globalRules_eq, List.filter_append]
  ordered := pairwise_insertSelectors hb.ordered
  mem_selectors s := by
    rw [Facts.merge, mem_insertSelectors, ha.mem_selectors, hb.mem_selectors]
    simp only [List.mem_append, or_and_right, exists_or]
  segment query hquery := by
    rcases List.mem_append.1 hquery with hquery | hquery
    · exact (ha.segment query hquery).trans (List.prefix_append _ _).isInfix
    · exact (hb.segment query hquery).trans (List.suffix_append _ _).isInfix
  inMedia query hquery := (List.mem_append.1 hquery).elim (ha.inMedia query) (hb.inMedia query)
  inAround haround rule hrule :=
    (List.mem_append.1 hrule).elim (ha.inAround haround rule) (hb.inAround haround rule)
  covered front rule back name hrules hmedia hname := by
    have hfirst : ∀ {more : List Rule}, a.rules = front ++ rule :: more → more <+: back →
        ∃ query ∈ (a.merge b).mediaQueries, query.query = name ∧ query.Covers front rule back := by
      intro more hplace hback
      obtain ⟨query, hquery, hcalled, hcovers⟩ := ha.covered front rule more name hplace hmedia hname
      exact ⟨query, List.mem_append_left _ hquery, hcalled, hcovers.mono List.suffix_rfl hback⟩
    have hsecond : ∀ {more : List Rule}, b.rules = more ++ rule :: back → more <:+ front →
        ∃ query ∈ (a.merge b).mediaQueries, query.query = name ∧ query.Covers front rule back := by
      intro more hplace hfront
      obtain ⟨query, hquery, hcalled, hcovers⟩ := hb.covered more rule back name hplace hmedia hname
      exact ⟨query, List.mem_append_right _ hquery, hcalled, hcovers.mono hfront List.prefix_rfl⟩
    rcases List.append_eq_append_iff.1 hrules with ⟨more, hfront, hplace⟩ | ⟨more, hplace, hback⟩
    · exact hsecond hplace (hfront ▸ List.suffix_append _ _)
    · -- the rule is the first one of the second facts if nothing of the first ones is left before it
      rcases List.cons_eq_append_iff.1 hback with ⟨rfl, hnext⟩ | ⟨more, rfl, rfl⟩
      · have hplace' : b.rules = [] ++ rule :: back := hnext
        exact hsecond hplace' List.nil_suffix
      · exact hfirst hplace (List.prefix_append _ _)

/-- What a media query makes of the facts inside it. -/
theorem Coherent.close {inner : Facts} {query : String} (h : Coherent exclude (some query) inner)
    (location : Location) : Coherent exclude around
      { inner with mediaQueries := inner.mediaQueries ++ [⟨query, inner.rules, location⟩] } where
  selected := h.selected
  spelled := h.spelled
  globalRules_eq := h.globalRules_eq
  ordered := h.ordered
  mem_selectors := h.mem_selectors
  segment other hother := by
    rcases List.mem_append.1 hother with hother | hother
    · exact h.segment other hother
    · rw [List.mem_singleton.1 hother]
  inMedia other hother := by
    rcases List.mem_append.1 hother with hother | hother
    · exact h.inMedia other hother
    · rw [List.mem_singleton.1 hother]
      exact h.inAround rfl
  inAround _ := h.inAround rfl
  covered front rule back name hrules hmedia _ := by
    by_cases hquery : query = name
    · -- a rule right inside the query is covered by it, as all rules of the block are
      subst hquery
      exact ⟨_, List.mem_append_right _ List.mem_cons_self, rfl, front, back, hrules, List.suffix_rfl,
        List.prefix_rfl⟩
    · obtain ⟨other, hother, hcovers⟩ := h.covered front rule back name hrules hmedia
        fun heq => hquery (Option.some.inj heq)
      exact ⟨other, List.mem_append_left _ hother, hcovers⟩

end Facts

open Facts (Coherent coherent_of_no_rules coherent_ruleFacts)

mutual

theorem coherent_itemFacts (policy : Policy) (media : Option String) :
    ∀ {item : Item}, item.IsNormal →
    Coherent policy.exclude media (itemFacts policy media item)
  | .rule span selectors block, h => by
    rw [Item.IsNormal] at h
    rw [itemFacts]
    exact (coherent_ruleFacts policy span block h.1).merge (coherent_itemsFacts policy media h.2)
  | .declaration _, _ => coherent_of_no_rules [] []
  | .media span query block, h => by
    rw [Item.IsNormal] at h
    rw [itemFacts]
    exact (coherent_itemsFacts policy (some query) h).close _
  | .importing _ _, _ => coherent_of_no_rules _ []
  | .keyframes _ _, _ => coherent_of_no_rules [] _
  | .group block, h => by
    rw [Item.IsNormal] at h
    rw [itemFacts]
    exact coherent_itemsFacts policy media h

theorem coherent_itemsFacts (policy : Policy) (media : Option String) : ∀ {items : List Item},
    AreNormal items → Coherent policy.exclude media (itemsFacts policy media items)
  | [], _ => coherent_of_no_rules [] []
  | item :: rest, h => by
    rw [AreNormal] at h
    rw [itemsFacts]
    exact (coherent_itemFacts policy media h.1).merge (coherent_itemsFacts policy media h.2)

end

/-! ## Guarded properties -/

namespace Facts

/-- Whether the properties that the rules declare are guarded. -/
def IsGuarded (facts : Facts) : Prop :=
  ∀ rule ∈ facts.rules, ∀ declaration ∈ rule.declarations, isGuarded declaration.property.toList = true

theorem isGuarded_of_no_rules {facts : Facts} (h : facts.rules = []) : facts.IsGuarded := by
  intro rule hrule
  rw [h] at hrule
  cases hrule

theorem IsGuarded.merge {a b : Facts} (ha : a.IsGuarded) (hb : b.IsGuarded) : (a.merge b).IsGuarded :=
  List.forall_mem_append.2 ⟨ha, hb⟩

theorem isGuarded_ruleFacts (policy : Policy) (media : Option String) (span : Span) (selectors : List String)
    {block : List Item} (h : AreNormal block) : (ruleFacts policy media span selectors block).IsGuarded := by
  unfold ruleFacts
  split
  · exact isGuarded_of_no_rules rfl
  · intro rule hrule declaration hdeclaration
    rw [List.mem_singleton.1 hrule] at hdeclaration
    obtain ⟨item, hitem, hsome⟩ := List.mem_filterMap.1 hdeclaration
    have hnormal := areNormal_iff.1 h item hitem
    cases item with
    | declaration d =>
      cases hsome
      rwa [Item.IsNormal] at hnormal
    | _ => cases hsome

end Facts

mutual

theorem isGuarded_itemFacts (policy : Policy) (media : Option String) :
    ∀ {item : Item}, item.IsNormal → (itemFacts policy media item).IsGuarded
  | .rule span selectors block, h => by
    rw [Item.IsNormal] at h
    rw [itemFacts]
    exact (Facts.isGuarded_ruleFacts policy media span selectors h.2).merge (isGuarded_itemsFacts policy media h.2)
  | .declaration _, _ | .importing _ _, _ | .keyframes _ _, _ => Facts.isGuarded_of_no_rules rfl
  | .media span query block, h => by
    rw [Item.IsNormal] at h
    rw [itemFacts]
    exact isGuarded_itemsFacts policy (some query) h
  | .group block, h => by
    rw [Item.IsNormal] at h
    rw [itemFacts]
    exact isGuarded_itemsFacts policy media h

theorem isGuarded_itemsFacts (policy : Policy) (media : Option String) :
    ∀ {items : List Item}, AreNormal items → (itemsFacts policy media items).IsGuarded
  | [], _ => Facts.isGuarded_of_no_rules rfl
  | item :: rest, h => by
    rw [AreNormal] at h
    rw [itemsFacts]
    exact (isGuarded_itemFacts policy media h.1).merge (isGuarded_itemsFacts policy media h.2)

end

/-! ## Gathered facts -/

/-- Facts that are gathered from sheets under one policy, merged in any way. -/
inductive Gathered (exclude : Bool) : Facts → Prop
  | empty : Gathered exclude Facts.empty
  | sheet (code : String) : Gathered exclude (extract exclude code)
  | merge {a b : Facts} : Gathered exclude a → Gathered exclude b → Gathered exclude (a.merge b)

/-- The style facts of a page are gathered from its sheets. -/
theorem gathered_page (ignoredGlobals : List String) (exclude : Bool) (code : String) :
    Gathered exclude (Page.extract ignoredGlobals exclude code).style := by
  refine List.foldlRecOn _ _ .empty ?_
  intro merged hmerged facts hfacts
  refine hmerged.merge ?_
  obtain ⟨sheet, -, rfl⟩ := List.mem_map.1 hfacts
  unfold Page.sheetFacts
  split
  · exact .empty
  · exact .sheet _

/-- The declarations in gathered facts have guarded properties. -/
theorem Gathered.isGuarded {exclude : Bool} {facts : Facts} (h : Gathered exclude facts) : facts.IsGuarded := by
  induction h with
  | empty => exact Facts.isGuarded_of_no_rules rfl
  | sheet code => exact isGuarded_itemsFacts _ none (areNormal_readSheet code.toList)
  | merge _ _ iha ihb => exact iha.merge ihb

theorem coherent_extract (exclude : Bool) (code : String) :
    Coherent exclude none (extract exclude code) :=
  coherent_itemsFacts ⟨code.toList, exclude⟩ none (areNormal_readSheet code.toList)

theorem Gathered.coherent {exclude : Bool} {facts : Facts} (h : Gathered exclude facts) :
    Coherent exclude none facts := by
  induction h with
  | empty => exact coherent_of_no_rules [] []
  | sheet code => exact coherent_extract exclude code
  | merge _ _ iha ihb => exact iha.merge ihb

/-- Facts gathered from sheets, and so the style facts of every page, are coherent. -/
theorem coherent_of_gathered (exclude : Bool) :
    (∀ facts, Gathered exclude facts → Coherent exclude none facts) ∧
      ∀ ignoredGlobals code, Coherent exclude none (Page.extract ignoredGlobals exclude code).style :=
  ⟨fun _ h => h.coherent, fun ignoredGlobals code => (gathered_page ignoredGlobals exclude code).coherent⟩

theorem nested_media_coherent :
    let screen := "@media screen \x7b .b   a , p  >  q \x7b top: 0 \x7d " ++
      "@media print \x7b .b a \x7b top: 1px \x7d \x7d \x7d"
    let other := "body \x7b margin: 0 \x7d a \x7b & + b \x7b top: 0 \x7d \x7d"
    let facts := (extract true screen).merge (extract true other)
    (facts.rules.map (fun rule => (rule.selectors, rule.media)) =
        [([".b a", "p>q"], some "screen"), ([".b a"], some "print"), (["body"], none), (["a"], none),
          (["&+b"], none)] ∧
      facts.globalRules.map (·.selectors) = [[".b a", "p>q"], ["body"], ["a"], ["&+b"]] ∧
      facts.selectors = ["&+b", ".b a", "a", "body", "p>q"] ∧
      facts.mediaQueries.map (fun query => (query.query, query.rules.map (·.selectors))) =
        [("print", [[".b a"]]), ("screen", [[".b a", "p>q"], [".b a"]])]) ∧
      Coherent true none facts :=
  ⟨by decide +kernel, (coherent_of_gathered true).1 _ (.merge (.sheet _) (.sheet _))⟩

end AssetAudit.Style
