import AssetAudit.Proofs.ListedFact
import AssetAudit.Proofs.RuleCover
import AssetAudit.Proofs.SurveyedFacts

/-!
# The texts of arguments

Each argument of a call is one tree, behind comments (`Derives.exists_single`), and so stands for all that
its rule has read. By what is known of such texts its colons are sheltered (`isSheltered_callArguments`), and
they are still when its blanks are collapsed (`isSheltered_compact`). So are the colons of every element that an
operation moves, as it is named in facts (`Gathered.namesElements`).
-/
namespace AssetAudit.Script

open Cursor (At)

variable {σ : Type} {unit : List Char}

/-! ## Rules that read one tree -/

namespace Rule

def isIdle : Rule σ → Bool
  | .check _ | .nothing | .ahead _ | .barred _ => true
  | _ => false

/-- Whether a rule reads one tree, if the symbols in `single` do. -/
def isSingle (single : σ → Bool) : Rule σ → Bool
  | .token _ _ | .glued _ _ | .node _ _ | .never => true
  | .sym symbol => single symbol
  | .seq first second =>
    first.isIdle && second.isSingle single || first.isSingle single && second.isIdle
  | .either first second => first.isSingle single && second.isSingle single
  | .role _ rule | .chain rule _ | .bracketed _ rule | .untypedArrows rule => rule.isSingle single
  | _ => false

end Rule

/-- The symbols that an expression is made of as a whole. -/
def isSingleSymbol : Symbol → Bool
  | .expression | .arrow | .conditional | .binary _ | .unary | .update | .postfixed | .primary | .creation
  | .template | .object | .element => true
  | _ => false

theorem isSingle_grammar (d : Dialect) (symbol : Symbol) :
    isSingleSymbol symbol = true → (grammar d symbol).isSingle isSingleSymbol = true := by
  cases symbol with
  | binary level =>
    exact fun _ => forall_binary (P := (·.isSingle isSingleSymbol = true)) (by cases d <;> decide)
      (fun _ => rfl) level
  | _ => cases d <;> decide

section Single

variable {g : Grammar σ} {task : Task σ} {rule : Rule σ} {a b : Cursor} {forest trees : List Tree}

theorem Derives.eq_of_isIdle (h : Derives g (.rule rule) a forest b trees) (hrule : rule.isIdle = true) :
    trees = forest := by
  cases h <;> first | rfl | cases hrule

/-- Growing leaves the trees before the last one as they are. -/
theorem Derives.exists_grown {links : List (Link σ)} {tree : Tree} {rest : List Tree}
    (h : Derives g (.grow links) a (tree :: rest) b trees) : ∃ grown, trees = grown :: rest := by
  generalize htask : Task.grow links = task at h
  generalize hforest : tree :: rest = forest at h
  induction h generalizing tree with
  | growNone => exact ⟨tree, hforest.symm⟩
  | growMore _ _ _ _ ih =>
    obtain ⟨rfl, rfl⟩ := List.cons.inj hforest
    exact ih htask rfl
  | _ => cases htask

theorem Derives.exists_single {single : σ → Bool}
    (hg : ∀ symbol, single symbol = true → (g symbol).isSingle single = true)
    (h : Derives g task a forest b trees) (htask : task.reads (Rule.isSingle single) = true) :
    ∃ tree comments, trees = tree :: (comments ++ forest) ∧ ∀ comment ∈ comments, comment.kind = .comment := by
  induction h with
  | token hpasses _ =>
    obtain ⟨comments, rfl, hcomments⟩ := hpasses.exists_comments
    exact ⟨_, comments, rfl, fun comment h => (hcomments comment h).1⟩
  | glued _ => exact ⟨_, [], rfl, by simp⟩
  | seq hfirst hsecond ih ih' =>
    rw [Task.reads, Rule.isSingle, Bool.or_eq_true, Bool.and_eq_true, Bool.and_eq_true] at htask
    rcases htask with ⟨hidle, hsingle⟩ | ⟨hsingle, hidle⟩
    · obtain rfl := hfirst.eq_of_isIdle hidle
      exact ih' hsingle
    · obtain rfl := hsecond.eq_of_isIdle hidle
      exact ih hsingle
  | first _ ih => exact ih (Bool.and_eq_true_iff.1 htask).1
  | second _ ih => exact ih (Bool.and_eq_true_iff.1 htask).2
  | node _ _ => exact ⟨_, _, rfl, fun comment h => kind_of_mem_takeWhile (List.mem_reverse.1 h)⟩
  | role _ ih =>
    obtain ⟨tree, comments, rfl, hcomments⟩ := ih htask
    rw [List.append_nil]
    exact ⟨_, setRole _ comments, rfl, kind_setRole hcomments⟩
  | chain _ hgrow ih _ =>
    obtain ⟨tree, comments, rfl, hcomments⟩ := ih htask
    obtain ⟨grown, rfl⟩ := hgrow.exists_grown
    rw [List.append_nil]
    exact ⟨grown, comments, rfl, hcomments⟩
  | bracketed _ ih | untypedArrows _ ih => exact ih htask
  | sym _ ih => exact ih (hg _ htask)
  | _ => cases htask

end Single

/-! ## Lists of arguments -/

/-- The text of a tree that stands alone behind comments is what was read. -/
theorem Occupies.holds {cover : Cover} {start after : Cursor} {tree : Tree} {comments : List Tree}
    (h : Occupies cover start after (tree :: comments))
    (hcomments : ∀ comment ∈ comments, comment.kind = .comment) (hplace : At unit start) :
    cover.Holds (tree.chars unit) := by
  obtain ⟨text, htext, hholds⟩ := h.text
  obtain ⟨more, first, others, hadded, hkind, hstart, -⟩ := h.first
  obtain ⟨last, rest, hlast, hstop⟩ := h.last
  obtain ⟨rfl, -⟩ := List.cons.inj hlast
  have hfirst : first = tree := by
    have hmem : first ∈ tree :: comments := by simp [hadded]
    exact (List.mem_cons.1 hmem).resolve_right fun hmem => hkind (hcomments first hmem)
  have hspan : tree.span = ⟨start.offset, after.offset⟩ := by
    rw [← hstart, ← hstop, hfirst]
  rw [Tree.chars, hspan, htext.slice_eq hplace]
  exact hholds

/-- Whether a tree is a token, a comment or sheltered. -/
def Tree.IsSheltered (unit : List Char) (tree : Tree) : Prop :=
  tree.kind = .token ∨ tree.kind = .comment ∨ isSheltered (tree.chars unit) = true

/-- Whether the trees that a rule of the script grammar reads are tokens, comments or sheltered. -/
def Rule.shelters : Rule Symbol → Bool
  | .token _ kind => kind == .token
  | .nothing => true
  | .seq first second | .either first second => first.shelters && second.shelters
  | .many rule | .bracketed _ rule => rule.shelters
  | .node kind rule =>
    kind != .comment && rule.commentFree && rule.isTight && rule.cover covers != .bare
  | .sym symbol => isSingleSymbol symbol && covers symbol != .bare
  | _ => false

theorem covers_grammar (d : Dialect) : Covers (grammar d) covers where
  cover := cover_grammar d
  least := least_grammar d
  isTight := isTight_grammar d
  commentFree := commentFree_grammar d

section Lists

variable {d : Dialect} {task : Task Symbol} {rule : Rule Symbol} {a b : Cursor} {forest trees : List Tree}

/-- A rule that reads one tree and is no bare one reads a sheltered tree. -/
theorem Derives.isSheltered_single (h : Derives (grammar d) (.rule rule) a forest b trees)
    (hsingle : rule.isSingle isSingleSymbol = true) (htight : rule.isTight = true)
    (hfree : rule.commentFree = true) (hcover : rule.cover covers ≠ .bare) (hplace : At unit a)
    (hforest : ∀ tree ∈ forest, tree.IsSheltered unit) : ∀ tree ∈ trees, tree.IsSheltered unit := by
  obtain ⟨tree, comments, rfl, hcomments⟩ := h.exists_single (isSingle_grammar d) hsingle
  obtain ⟨added, hadded, htakes⟩ := h.does (covers_grammar d) htight hfree
  have hone : added = tree :: comments := List.append_cancel_right hadded.symm
  subst hone
  refine List.forall_mem_cons.2 ⟨.inr (.inr ?_), List.forall_mem_append.2 ⟨fun comment hcomment => ?_, hforest⟩⟩
  · cases htakes with
    | idle _ _ hnone => cases hnone
    | occupies hgap _ h => exact (h.holds hcomments (hgap.place hplace)).isSheltered hcover
  · exact .inr (.inl (hcomments comment hcomment))

theorem Derives.isSheltered (h : Derives (grammar d) task a forest b trees)
    (htask : task.reads Rule.shelters = true) (hplace : At unit a)
    (hforest : ∀ tree ∈ forest, tree.IsSheltered unit) : ∀ tree ∈ trees, tree.IsSheltered unit := by
  induction h with
  | token hpasses _ =>
    rw [Task.reads, Rule.shelters, beq_iff_eq] at htask
    exact List.forall_mem_cons.2 ⟨.inl htask,
      hpasses.forall_mem hforest fun tree hkind _ => .inr (.inl hkind)⟩
  | nothing | manyNone => exact hforest
  | seq hfirst _ ih ih' =>
    rw [Task.reads, Rule.shelters, Bool.and_eq_true] at htask
    exact ih' htask.2 (hfirst.place hplace) (ih htask.1 hplace hforest)
  | first _ ih =>
    rw [Task.reads, Rule.shelters, Bool.and_eq_true] at htask
    exact ih htask.1 hplace hforest
  | second _ ih =>
    rw [Task.reads, Rule.shelters, Bool.and_eq_true] at htask
    exact ih htask.2 hplace hforest
  | manyMore hfirst _ ih ih' => exact ih' htask (hfirst.place hplace) (ih htask hplace hforest)
  | bracketed _ ih => exact ih htask hplace hforest
  | node hinner _ =>
    simp only [Task.reads, Rule.shelters, Bool.and_eq_true, bne_iff_ne] at htask
    obtain ⟨⟨⟨hkind, hfree⟩, htight⟩, hcover⟩ := htask
    refine (Derives.node hinner).isSheltered_single rfl htight ?_ hcover hplace hforest
    rw [Rule.commentFree, Bool.and_eq_true, bne_iff_ne]
    exact ⟨hkind, hfree⟩
  | sym hinner _ =>
    rw [Task.reads, Rule.shelters, Bool.and_eq_true, bne_iff_ne] at htask
    exact (Derives.sym hinner).isSheltered_single htask.1 rfl rfl htask.2 hplace hforest
  | _ => cases htask

end Lists

/-- Whether the arguments in a list are sheltered. -/
def Tree.ShelteredArguments (unit : List Char) (tree : Tree) : Prop :=
  tree.kind = .arguments → ∀ child ∈ tree.children, child.IsSheltered unit

/-- The conditions on rules that make lists of arguments. -/
def argumentShape : Shape Symbol where
  token _ kind := kind != .arguments
  node rule kind := kind != .arguments || rule.shelters
  grown _ kind := kind != .arguments

theorem ensures_argumentShape (d : Dialect) (unit : List Char) :
    argumentShape.Ensures (grammar d) unit (Tree.ShelteredArguments unit) where
  withRole r h := h
  comment hkind _ hlist := by
    rw [hkind] at hlist
    cases hlist
  mark _ hlist := by cases hlist
  token hkind _ _ hlist := absurd hlist (bne_iff_ne.1 hkind)
  node {rule kind cursor after inner} hnode hinner hplace hlist child hchild := by
    have hkind : kind = .arguments := hlist
    rw [argumentShape, hkind] at hnode
    exact hinner.isSheltered hnode hplace (by simp) child (mem_of_mem_children_closed hchild)
  grown hkind _ _ _ hlist := absurd hlist (bne_iff_ne.1 hkind)

theorem argumentShape_grammar (d : Dialect) (symbol : Symbol) :
    (grammar d symbol).fits argumentShape = true := by
  cases symbol with
  | binary level =>
    exact forall_binary (P := (·.fits argumentShape = true)) (by cases d <;> decide) (fun _ => rfl) level
  | _ => cases d <;> rfl

/-- The arguments of the calls of a unit are sheltered. -/
theorem isSheltered_callArguments {d : Dialect} {tree : Tree} (h : parse d unit = .ok tree) {visit : Visit}
    (hvisit : visit ∈ tree.visits) {argument : Tree} (hargument : argument ∈ callArguments visit.node) :
    isSheltered (argument.chars unit) = true := by
  have hall : tree.Each (Tree.ShelteredArguments unit) := each_parse (ensures_argumentShape d unit)
    (argumentShape_grammar d) (by rfl) h (by rintro ⟨⟩)
  have hnode := hall.of_mem_visitsFrom hvisit
  unfold callArguments at hargument
  split at hargument
  · rename_i list hlist
    split at hargument
    · rename_i hkind
      obtain ⟨hnamed, hcomment⟩ := List.mem_filter.1 hargument
      obtain ⟨hchild, htoken⟩ := Tree.mem_named.1 hnamed
      have hsheltered := (hnode.of_mem_children (Tree.mem_of_child? hlist)).node (beq_iff_eq.1 hkind)
        argument hchild
      exact (hsheltered.resolve_left htoken).resolve_left (bne_iff_ne.1 hcomment)
    · cases hargument
  · cases hargument

/-! ## Collapsed blanks -/

/-- Behind a character other than a `u` a text can go on in another way. -/
theorem isSheltered_append_of_ne {c : Char} (hc : c ≠ 'u') {back tail : List Char}
    (htail : isSheltered (c :: back) = true → isSheltered tail = true) {front : List Char}
    (h : isSheltered (front ++ c :: back) = true) : isSheltered (front ++ tail) = true := by
  induction front with
  | nil => exact htail h
  | cons d front ih =>
    rw [List.cons_append, isSheltered, Bool.or_eq_true] at h ⊢
    refine h.imp_right fun h => ?_
    rw [Bool.and_eq_true, Bool.and_eq_true, Bool.or_eq_true] at h ⊢
    obtain ⟨⟨hcolon, hescape⟩, hrest⟩ := h
    refine ⟨⟨hcolon, hescape.imp_right fun hu => ?_⟩, ih hrest⟩
    cases front with
    | nil => exact absurd (Option.some.inj (beq_iff_eq.1 hu)) hc
    | cons e front => exact hu

theorem isSheltered_of_isBlank {c : Char} (hc : Text.isBlank c = true) {rest : List Char}
    (h : isSheltered (c :: rest) = true) : isSheltered rest = true := by
  rw [isSheltered, Bool.or_eq_true] at h
  rcases h with h | h
  · have hnone : ∀ d ∈ openings, Text.isBlank d = false := by decide
    rw [hnone c (List.contains_iff_mem.1 h)] at hc
    cases hc
  · exact (Bool.and_eq_true_iff.1 h).2

/-- The words of a sheltered text are sheltered with spaces between them. -/
theorem isSheltered_intercalate {text run : List Char} (h : isSheltered (run.reverse ++ text) = true) :
    isSheltered ([' '].intercalate (Text.runsFrom Text.isBlank run text)) = true := by
  induction text generalizing run with
  | nil =>
    rw [Text.runsFrom]
    rw [List.append_nil] at h
    split
    · rfl
    · rwa [List.intercalate_singleton]
  | cons c rest ih =>
    rw [Text.runsFrom]
    split
    · rename_i hblank
      have hc : c ≠ 'u' := by
        rintro rfl
        exact absurd hblank (by decide)
      have hrest : isSheltered (c :: rest) = true →
          isSheltered ([' '].intercalate (Text.runsFrom Text.isBlank [] rest)) = true :=
        fun h => ih (isSheltered_of_isBlank hblank h)
      split
      · rename_i hempty
        rw [List.isEmpty_iff.1 hempty] at h
        exact hrest h
      · cases hruns : Text.runsFrom Text.isBlank [] rest with
        | nil =>
          have hfront := isSheltered_append_of_ne hc (fun _ => (rfl : isSheltered [] = true)) h
          rw [List.append_nil] at hfront
          rwa [List.intercalate_singleton]
        | cons word words =>
          rw [hruns] at hrest
          rw [List.intercalate_cons_cons, List.append_assoc]
          exact isSheltered_append_of_ne hc (fun h => @isSheltered_append [' '] _ rfl (hrest h)) h
    · refine ih ?_
      rwa [List.reverse_cons, List.append_assoc]

theorem isSheltered_compact {text : String} (h : isSheltered text.toList = true) :
    isSheltered (Text.compact text).toList = true := by
  have hwords : ((Text.words text.toList).map String.ofList).map String.toList = Text.words text.toList := by
    rw [List.map_map]
    exact (List.map_congr_left fun word _ => String.toList_ofList).trans (List.map_id _)
  rw [Text.compact, String.toList_intercalate, hwords]
  exact isSheltered_intercalate h

/-! ## Operations on elements -/

theorem isMarkup_of_markupMethod? {name : String} {method : ElementMethod}
    (h : markupMethod? name = some method) : method ∈ [.innerHtml, .outerHtml] := by
  unfold markupMethod? at h
  split at h
  · cases h
    decide
  · split at h
    · cases h
      decide
    · cases h

/-- An operation that moves an element names its first argument. -/
theorem Shows.element_eq {visit : Visit} {o : ElementOperation} (h : Shows unit visit (.operation o))
    (hmethod : o.method ∈ [.appendChild, .insertBefore, .removeChild]) :
    o.element = memberCallFacts.firstName unit (callArguments visit.node) := by
  generalize hfact : Fact.operation o = fact at h
  cases h with
  | appendChild | removeChild | insertBefore =>
    cases hfact
    rfl
  | markupWrite form hwrite =>
    cases hfact
    rcases List.mem_pair.1 (isMarkup_of_markupMethod? hwrite) with rfl | rfl <;> simp at hmethod
  | createElement | createTextNode | insertAdjacentHtml =>
    cases hfact
    simp at hmethod
  | _ => cases hfact

theorem isSheltered_firstName {arguments : List Tree}
    (h : ∀ argument ∈ arguments, isSheltered (argument.chars unit) = true) :
    isSheltered (memberCallFacts.firstName unit arguments).toList = true := by
  cases arguments with
  | nil =>
    show isSheltered unknownName.toList = true
    decide
  | cons first rest =>
    refine isSheltered_compact ?_
    rw [Tree.text, String.toList_ofList]
    exact h first List.mem_cons_self

/-- Whether the operations that move elements name them by sheltered texts. -/
def Facts.NamesElements (facts : Facts) : Prop :=
  ∀ o ∈ facts.appended ++ facts.inserted ++ facts.detached, isSheltered o.element.toList = true

theorem namesElements_extract {reading : Reading} {code : String} {facts : Facts}
    (h : extract reading code = .ok facts) : facts.NamesElements := by
  unfold extract at h
  simp only at h
  split at h
  · rename_i tree hparse
    cases h
    have hmoved : ∀ method ∈ [.appendChild, .insertBefore, .removeChild], ∀ o ∈
        (tree.visits.flatMap (factsAt code.toList)).filterMap (Fact.operation? [method]),
        isSheltered o.element.toList = true := by
      intro method hmethod o ho
      obtain ⟨fact, hfact, hselect⟩ := List.mem_filterMap.1 ho
      obtain ⟨visit, hvisit, hfact⟩ := List.mem_flatMap.1 hfact
      obtain ⟨rfl, ho⟩ := Fact.operation?_eq_some.1 hselect
      rw [(mem_factsAt.1 hfact).element_eq (by rwa [List.mem_singleton.1 ho])]
      exact isSheltered_firstName fun argument hargument =>
        isSheltered_callArguments hparse hvisit hargument
    refine List.forall_mem_append.2 ⟨List.forall_mem_append.2 ⟨?_, ?_⟩, ?_⟩
    · exact hmoved .appendChild (by decide)
    · exact hmoved .insertBefore (by decide)
    · exact hmoved .removeChild (by decide)
  · cases h

theorem Facts.NamesElements.merge {a b : Facts} (ha : a.NamesElements) (hb : b.NamesElements) :
    (a.merge b).NamesElements := by
  simp only [NamesElements, Facts.merge, List.forall_mem_append] at ha hb ⊢
  obtain ⟨⟨happended, hinserted⟩, hdetached⟩ := ha
  obtain ⟨⟨happended', hinserted'⟩, hdetached'⟩ := hb
  exact ⟨⟨⟨happended, happended'⟩, hinserted, hinserted'⟩, hdetached, hdetached'⟩

/-- In gathered facts, every operation that moves an element names it by a sheltered text. -/
theorem Gathered.namesElements {facts : Facts} (h : Gathered facts) : facts.NamesElements := by
  induction h with
  | empty => simp [Facts.NamesElements, Facts.empty]
  | script hfacts => exact namesElements_extract hfacts
  | merge _ _ iha ihb => exact iha.merge ihb

end AssetAudit.Script
