import AssetAudit.Proofs.ShelteredText

/-!
# Covers of rules

What is known of the texts that a rule reads (`Rule.cover`) is put together from what is known of its parts, and
for the script grammar from a table of its symbols (`covers`), which the rules agree with (`cover_grammar`). That
it is true of every derivation is `Derives.does`: what a rule takes (`Takes`) is nothing, or a text of its cover
behind blanks and comments, and the trees it adds start and end with that text.

Blanks and comments that a rule passes by belong to the text only if more is read behind them. So rules
must be tight (`Rule.isTight`): they pass by nothing at their ends.
-/
namespace AssetAudit.Script

variable {σ : Type}

/-! ## Rules -/

namespace Rule

def isTrivia : Rule σ → Bool
  | .trivia => true
  | _ => false

/-- The number of trees that a rule reads at least. -/
def least : Rule σ → Nat
  | .token _ _ | .glued _ _ | .semicolon _ | .lineEnd _ | .never | .node _ _ | .sym _ => 1
  | .trivia | .check _ | .nothing | .many _ | .ahead _ | .barred _ => 0
  | .seq first second => first.least + second.least
  | .either first second => min first.least second.least
  | .role _ rule | .chain rule _ | .bracketed _ rule | .untypedArrows rule => rule.least

end Rule

mutual

/-- Whether a rule that reads anything ends with a tree. -/
def Rule.isTight : Rule σ → Bool
  | .trivia => false
  | .token _ _ | .glued _ _ | .semicolon _ | .lineEnd _ | .check _ | .nothing | .never | .ahead _ | .barred _
  | .sym _ => true
  | .seq first second => second.isTight && (first.isTight || first.isTrivia && second.least != 0)
  | .either first second => first.isTight && second.isTight
  | .many rule | .node _ rule | .role _ rule | .bracketed _ rule | .untypedArrows rule => rule.isTight
  | .chain base links => base.isTight && linksTight links

def linksTight : List (Link σ) → Bool
  | [] => true
  | link :: links => link.isTight && linksTight links

def Link.isTight : Link σ → Bool
  | .mk _ _ _ rule => rule.isTight

end

mutual

/-- What is known of the texts that a rule reads. -/
def Rule.cover (table : σ → Cover) : Rule σ → Cover
  | .token lexeme _ | .glued lexeme _ => lexeme.cover
  | .semicolon _ | .lineEnd _ | .trivia => .bare
  | .check _ | .nothing | .ahead _ | .barred _ => .sheltered
  | .never => .opened
  | .seq first second => (first.cover table).andThen (second.cover table)
  | .either first second => (first.cover table).orElse (second.cover table)
  | .many rule => (rule.cover table).repeated
  | .node _ rule | .role _ rule | .bracketed _ rule | .untypedArrows rule => rule.cover table
  | .chain base links => (base.cover table).andThen (linksCover table links).repeated
  | .sym symbol => table symbol

def linksCover (table : σ → Cover) : List (Link σ) → Cover
  | [] => .opened
  | link :: links => (link.cover table).orElse (linksCover table links)

def Link.cover (table : σ → Cover) : Link σ → Cover
  | .mk _ _ _ rule => rule.cover table

end

theorem Rule.cover_of_isTrivia {table : σ → Cover} {rule : Rule σ} (h : rule.isTrivia = true) :
    rule.cover table = .bare := by
  cases rule with
  | trivia => rfl
  | _ => cases h

/-- What is known of the expressions of scripts, and of the parts that they are made of. -/
def covers : Symbol → Cover
  | .statement | .declaration => .bare
  | .block | .functionBody | .arguments | .template | .object | .parameters | .classBody | .element
  | .typeArguments | .typeParameters | .objectType => .opened
  | _ => .sheltered

theorem isTight_grammar (d : Dialect) (symbol : Symbol) : (grammar d symbol).isTight = true := by
  cases symbol with
  | binary level => exact forall_binary (P := (·.isTight = true)) (by cases d <;> decide) (fun _ => rfl) level
  | _ => cases d <;> rfl

theorem least_grammar (d : Dialect) (symbol : Symbol) : 1 ≤ (grammar d symbol).least := by
  cases symbol with
  | binary level => exact forall_binary (P := (1 ≤ ·.least)) (by cases d <;> decide) (fun _ => Nat.le_refl 1) level
  | _ => cases d <;> decide

theorem cover_grammar (d : Dialect) (symbol : Symbol) : (grammar d symbol).cover covers = covers symbol := by
  cases symbol with
  | binary level =>
    exact forall_binary (P := (·.cover covers = .sheltered)) (by cases d <;> decide) (fun _ => rfl) level
  | _ => cases d <;> decide

theorem Link.isTight_of_mem {link : Link σ} : ∀ {links : List (Link σ)},
    linksTight links = true → link ∈ links → link.isTight = true
  | first :: links, h, hlink => by
    rw [linksTight, Bool.and_eq_true] at h
    rcases List.mem_cons.1 hlink with rfl | hlink
    · exact h.1
    · exact isTight_of_mem h.2 hlink

theorem Link.gives_cover_of_mem (table : σ → Cover) {link : Link σ} : ∀ {links : List (Link σ)},
    link ∈ links → (link.cover table).Gives (linksCover table links)
  | first :: links, hlink => by
    rw [linksCover]
    rcases List.mem_cons.1 hlink with rfl | hlink
    · exact Cover.gives_orElse_left _ _
    · exact (gives_cover_of_mem table hlink).trans (Cover.gives_orElse_right _ _)

/-! ## What is read -/

/-- The number of trees that a task adds at least. -/
def Task.least : Task σ → Nat
  | .rule r => r.least
  | .grow _ => 0

theorem Derives.least_le {g : Grammar σ} (hg : ∀ symbol, 1 ≤ (g symbol).least) {task : Task σ} {a b : Cursor}
    {forest trees : List Tree} (h : Derives g task a forest b trees) :
    task.least + forest.length ≤ trees.length := by
  induction h with
  | token hpasses _ | semicolon _ hpasses | lineEnd _ hpasses =>
    obtain ⟨comments, rfl, -⟩ := hpasses.exists_comments
    simp only [Task.least, Rule.least, List.length_cons, List.length_append]
    omega
  | trivia hpasses =>
    obtain ⟨comments, rfl, -⟩ := hpasses.exists_comments
    simp [Task.least, Rule.least]
  | glued _ => exact Nat.le_of_eq (Nat.add_comm 1 _)
  | check | nothing | manyNone | ahead | barred | growNone => simp [Task.least, Rule.least]
  | seq _ _ ih ih' =>
    simp only [Task.least, Rule.least] at ih ih' ⊢
    omega
  | first _ ih | second _ ih =>
    simp only [Task.least, Rule.least] at ih ⊢
    omega
  | manyMore _ _ ih ih' =>
    simp only [Task.least, Rule.least] at ih ih' ⊢
    omega
  | node _ _ =>
    simp only [Task.least, Rule.least, closeNode, List.length_cons, List.length_append]
    omega
  | role _ ih =>
    simpa [Task.least, Rule.least, setRole] using ih
  | chain _ _ ih ih' =>
    simp only [Task.least, Rule.least, List.length_nil, List.length_append] at ih ih' ⊢
    omega
  | bracketed _ ih | untypedArrows _ ih => exact ih
  | @sym _ _ _ _ symbol _ ih =>
    have hsymbol := hg symbol
    simp only [Task.least, Rule.least] at ih ⊢
    omega
  | growMore _ _ _ _ ih =>
    simpa [Task.least] using ih

theorem Derives.passes {g : Grammar σ} {rule : Rule σ} {a b : Cursor} {forest trees : List Tree}
    (h : Derives g (.rule rule) a forest b trees) (hrule : rule.isTrivia = true) :
    Passes true a forest b trees := by
  cases rule with
  | trivia =>
    cases h with
    | trivia hpasses => exact hpasses
  | _ => cases hrule

/-- Something that was read from a place on: its text, and its trees, which start and end where it does but for
comments in front. -/
structure Occupies (cover : Cover) (start after : Cursor) (added : List Tree) : Prop where
  text : ∃ text, Leads text start after ∧ cover.Holds text
  first : ∃ more tree comments, added = more ++ tree :: comments ∧ tree.kind ≠ .comment ∧
    tree.span.start = start.offset ∧ ∀ comment ∈ comments, comment.kind = .comment
  last : ∃ tree rest, added = tree :: rest ∧ tree.span.stop = after.offset

/-- What reading a rule does: nothing, or it reads something behind blanks and comments. -/
inductive Takes (cover : Cover) (before after : Cursor) (added : List Tree) : Prop where
  | idle (hcover : cover.Holds []) (hcursor : after = before) (hadded : added = [])
  | occupies {gap : List Char} {start : Cursor} (hgap : Leads gap before start)
    (hsheltered : cover ≠ .bare → isSheltered gap = true) (h : Occupies cover start after added)

section Takes

variable {cover second : Cover} {start next before after later : Cursor} {added more : List Tree}

theorem Occupies.weaken (h : Occupies cover start after added) (hgives : cover.Gives second) :
    Occupies second start after added := by
  obtain ⟨text, htext, hholds⟩ := h.text
  exact ⟨⟨text, htext, hholds.weaken hgives⟩, h.first, h.last⟩

theorem Takes.weaken (h : Takes cover before after added) (hgives : cover.Gives second) :
    Takes second before after added := by
  cases h with
  | idle hcover hcursor hadded => exact .idle (hcover.weaken hgives) hcursor hadded
  | occupies hgap hsheltered h =>
    exact .occupies hgap (fun hsecond => hsheltered (hgives.ne_bare hsecond)) (h.weaken hgives)

theorem Occupies.append {gap : List Char} (h : Occupies cover start after added)
    (hgap : Leads gap after next) (hsheltered : second ≠ .bare → isSheltered gap = true)
    (hmore : Occupies second next later more) : Occupies (cover.andThen second) start later (more ++ added) := by
  obtain ⟨text, htext, hholds⟩ := h.text
  obtain ⟨text', htext', hholds'⟩ := hmore.text
  obtain ⟨others, tree, comments, hadded, hfirst⟩ := h.first
  obtain ⟨last, rest, hlast, hstop⟩ := hmore.last
  exact ⟨⟨_, htext.append (hgap.append htext'), hholds.append hsheltered hholds'⟩,
    ⟨more ++ others, tree, comments, by rw [hadded, List.append_assoc], hfirst⟩,
    ⟨last, rest ++ added, by rw [hlast]; rfl, hstop⟩⟩

theorem Occupies.append_nil (h : Occupies cover start after added) (hsecond : second.Holds []) :
    Occupies (cover.andThen second) start after added := by
  obtain ⟨text, htext, hholds⟩ := h.text
  exact ⟨⟨text, htext, hholds.append_nil hsecond⟩, h.first, h.last⟩

theorem Takes.append (h : Takes cover before after added) (h' : Takes second after later more) :
    Takes (cover.andThen second) before later (more ++ added) := by
  cases h with
  | idle hcover hcursor hadded =>
    subst hcursor hadded
    cases h' with
    | idle hsecond hcursor hadded => exact .idle (hcover.append_nil hsecond) hcursor (by rw [hadded]; rfl)
    | occupies hgap hsheltered h =>
      have hgives := Cover.gives_andThen_of_nil hcover second
      rw [List.append_nil]
      exact .occupies hgap (fun hne => hsheltered (hgives.ne_bare hne)) (h.weaken hgives)
  | occupies hgap hsheltered h =>
    have hne : cover.andThen second ≠ .bare → isSheltered _ = true :=
      fun hne => hsheltered (Cover.ne_bare_of_andThen hne)
    cases h' with
    | idle hsecond hcursor hadded =>
      subst hcursor hadded
      exact .occupies hgap hne (h.append_nil hsecond)
    | occupies hgap' hsheltered' h' => exact .occupies hgap hne (h.append hgap' hsheltered' h')

/-- What was read behind blanks and comments of a statement. -/
theorem Takes.behind {gap : List Char} {comments : List Tree} (hgap : Leads gap before after)
    (hcomments : ∀ comment ∈ comments, comment.kind = .comment) (h : Takes cover after later more)
    (hmore : more ≠ []) : Takes .bare before later (more ++ comments) := by
  cases h with
  | idle _ _ hadded => exact absurd hadded hmore
  | occupies hgap' _ h =>
    obtain ⟨text, htext, -⟩ := h.text
    obtain ⟨others, tree, inFront, rfl, htree, hstart, hinFront⟩ := h.first
    obtain ⟨last, rest, hlast, hstop⟩ := h.last
    refine .occupies (hgap.append hgap') (absurd rfl) ⟨⟨text, htext, trivial⟩,
      ⟨others, tree, inFront ++ comments, by simp, htree, hstart, ?_⟩,
      ⟨last, rest ++ comments, by rw [hlast]; rfl, hstop⟩⟩
    exact List.forall_mem_append.2 ⟨hinFront, hcomments⟩

/-- A token and the comments in front of it. -/
theorem occupies_leaf {cover : Cover} {kind : Kind} (hkind : kind ≠ .comment) {n : Nat}
    (hcover : cover.Holds (start.rest.take n)) {comments : List Tree}
    (hcomments : ∀ comment ∈ comments, comment.kind = .comment) :
    Occupies cover start (start.skip n) (leaf kind start n :: comments) :=
  ⟨⟨_, leads_skip start n, hcover⟩, ⟨[], _, comments, rfl, hkind, rfl, hcomments⟩, ⟨_, _, rfl, rfl⟩⟩

end Takes

/-! ## Nodes -/

theorem forestSpan_eq {more comments rest : List Tree} {tree last : Tree} (offset : Nat)
    (h : more ++ tree :: comments = last :: rest) :
    forestSpan offset (tree :: more.reverse) = ⟨tree.span.start, last.span.stop⟩ := by
  cases more with
  | nil =>
    obtain ⟨rfl, -⟩ := List.cons.inj h
    rfl
  | cons newest more =>
    obtain ⟨rfl, -⟩ := List.cons.inj h
    rw [forestSpan, List.reverse_cons, ← List.cons_append, List.getLast?_concat]
    rfl

theorem closeNode_eq (kind : Kind) (before more : List Tree) {comments : List Tree} {tree : Tree} (offset : Nat)
    (htree : tree.kind ≠ .comment) (hcomments : ∀ comment ∈ comments, comment.kind = .comment) :
    closeNode kind before (more ++ tree :: comments) offset =
      closed kind (more ++ tree :: comments) offset :: (comments ++ before) := by
  have hall : ∀ comment ∈ comments.reverse, (comment.kind == .comment) = true :=
    fun comment h => beq_iff_eq.2 (hcomments comment (List.mem_reverse.1 h))
  have hleading : (more ++ tree :: comments).reverse.takeWhile (·.kind == .comment) = comments.reverse := by
    rw [List.reverse_append, List.reverse_cons, List.append_assoc, List.takeWhile_append_of_pos hall,
      List.singleton_append, List.takeWhile_cons_of_neg (by simpa using htree), List.append_nil]
  show _ :: (List.reverse (List.takeWhile _ _) ++ before) = _
  rw [hleading, List.reverse_reverse]
  rfl

section Nodes

variable {cover second : Cover} {start before after later : Cursor} {inner more : List Tree} {kind : Kind}

theorem Occupies.node (h : Occupies cover start after inner) (hkind : kind ≠ .comment) (forest : List Tree) :
    ∃ added, closeNode kind forest inner after.offset = added ++ forest ∧ Occupies cover start after added := by
  obtain ⟨others, tree, comments, rfl, htree, hstart, hcomments⟩ := h.first
  obtain ⟨last, rest, hlast, hstop⟩ := h.last
  have hspan : (closed kind (others ++ tree :: comments) after.offset).span =
      ⟨tree.span.start, last.span.stop⟩ := by
    have hbody := children_closed kind others after.offset htree hcomments
    show forestSpan _ (closed kind (others ++ tree :: comments) after.offset).children = _
    rw [hbody, forestSpan_eq _ hlast]
  refine ⟨_ :: comments, closeNode_eq kind forest others after.offset htree hcomments, h.text,
    ⟨[], _, comments, rfl, hkind, ?_, hcomments⟩, _, comments, rfl, ?_⟩
  · rw [hspan]
    exact hstart
  · rw [hspan]
    exact hstop

theorem Takes.node (h : Takes cover before after inner) (hkind : kind ≠ .comment) (forest : List Tree) :
    ∃ added, closeNode kind forest inner after.offset = added ++ forest ∧ Takes cover before after added := by
  cases h with
  | idle hcover hcursor hadded =>
    subst hcursor hadded
    exact ⟨[_], rfl, .occupies (.refl _) (fun _ => rfl)
      ⟨⟨[], .refl _, hcover⟩, ⟨[], _, [], rfl, hkind, rfl, by simp⟩, _, [], rfl, rfl⟩⟩
  | occupies hgap hsheltered h =>
    obtain ⟨added, hadded, h⟩ := h.node hkind forest
    exact ⟨added, hadded, .occupies hgap hsheltered h⟩

theorem Takes.setRole (h : Takes cover before after inner) (r : Role) :
    Takes cover before after (setRole r inner) := by
  let inRole (tree : Tree) : Tree := if tree.kind == .comment then tree else tree.withRole r
  have hkind : ∀ tree, (inRole tree).kind = tree.kind := by
    intro tree
    unfold inRole
    split <;> rfl
  have hspan : ∀ tree, (inRole tree).span = tree.span := by
    intro tree
    unfold inRole
    split <;> rfl
  cases h with
  | idle hcover hcursor hadded => exact .idle hcover hcursor (by rw [hadded]; rfl)
  | occupies hgap hsheltered h =>
    obtain ⟨others, tree, comments, hinner, htree, hstart, hcomments⟩ := h.first
    obtain ⟨last, rest, hlast, hstop⟩ := h.last
    refine .occupies hgap hsheltered ⟨h.text,
      ⟨others.map inRole, inRole tree, comments.map inRole, ?_, ?_, ?_, kind_setRole hcomments⟩,
      ⟨inRole last, rest.map inRole, by rw [hlast]; rfl, by rw [hspan, hstop]⟩⟩
    · rw [hinner]
      exact List.map_append
    · rwa [hkind]
    · rwa [hspan]

/-- A tree that has grown by what was read behind it. -/
theorem Occupies.grown {base : Tree} {others : List Tree} (h : Occupies cover start before (base :: others))
    (hinner : Takes second before after inner) (hkind : kind ≠ .comment) (r : Role) :
    Occupies (cover.andThen second) start after
      (.mk kind .plain (forestSpan after.offset (base.withRole r :: inner.reverse))
        (base.withRole r :: inner.reverse) :: others) := by
  obtain ⟨text, htext, hholds⟩ := h.text
  obtain ⟨more, tree, comments, hadded, htree, hstart, hcomments⟩ := h.first
  obtain ⟨last, rest, hlast, hstop⟩ := h.last
  obtain ⟨rfl, rfl⟩ := List.cons.inj hlast
  -- the grown tree is the first one if the tree was
  have hfirst : ∀ {grown : Tree}, grown.kind ≠ .comment → grown.span.start = base.span.start →
      ∃ more tree comments, grown :: others = more ++ tree :: comments ∧ tree.kind ≠ .comment ∧
        tree.span.start = start.offset ∧ ∀ comment ∈ comments, comment.kind = .comment := by
    intro grown hgrown hspan
    cases more with
    | nil =>
      obtain ⟨rfl, rfl⟩ := List.cons.inj hadded
      exact ⟨[], grown, others, rfl, hgrown, hspan.trans hstart, hcomments⟩
    | cons newest more =>
      obtain ⟨rfl, rfl⟩ := List.cons.inj hadded
      exact ⟨grown :: more, tree, comments, rfl, htree, hstart, hcomments⟩
  cases hinner with
  | idle hsecond hcursor hnone =>
    subst hcursor hnone
    exact ⟨⟨text, htext, hholds.append_nil hsecond⟩, hfirst hkind rfl, ⟨_, others, rfl, hstop⟩⟩
  | occupies hgap hsheltered h' =>
    obtain ⟨text', htext', hholds'⟩ := h'.text
    obtain ⟨last, rest, rfl, hstop'⟩ := h'.last
    have hspan := forestSpan_eq after.offset (List.cons_append : _ = last :: (rest ++ [base.withRole r]))
    rw [hspan]
    exact ⟨⟨_, htext.append (hgap.append htext'), hholds.append hsheltered hholds'⟩, hfirst hkind rfl,
      ⟨_, others, rfl, hstop'⟩⟩

end Nodes

/-- What a task does: a rule adds trees for what it takes, and a tree that grows takes in what links read. -/
def Task.Does (table : σ → Cover) (before : Cursor) (forest : List Tree) (after : Cursor) (trees : List Tree) :
    Task σ → Prop
  | .rule r => ∃ added, trees = added ++ forest ∧ Takes (r.cover table) before after added
  | .grow links => ∀ {cover : Cover} {start : Cursor}, Occupies cover start before forest →
    Occupies (cover.andThen (linksCover table links).repeated) start after trees

theorem Task.Does.takes {table : σ → Cover} {rule : Rule σ} {before after : Cursor} {trees : List Tree}
    (h : (Task.rule rule).Does table before [] after trees) : Takes (rule.cover table) before after trees := by
  obtain ⟨added, rfl, htakes⟩ := h
  rwa [List.append_nil]

def Task.isTight : Task σ → Bool
  | .rule r => r.isTight
  | .grow links => linksTight links

/-- Whether the rules of a grammar agree with a table of what is known of its symbols, and their trees show what
they read. -/
structure Covers (g : Grammar σ) (table : σ → Cover) : Prop where
  cover : ∀ symbol, (g symbol).cover table = table symbol
  least : ∀ symbol, 1 ≤ (g symbol).least
  isTight : ∀ symbol, (g symbol).isTight = true
  commentFree : ∀ symbol, (g symbol).commentFree = true

/-- Every derivation takes a text of the cover of its rule. -/
theorem Derives.does {g : Grammar σ} {table : σ → Cover} (hg : Covers g table) {task : Task σ} {a b : Cursor}
    {forest trees : List Tree} (h : Derives g task a forest b trees) (htight : task.isTight = true)
    (hfree : task.commentFree = true) : task.Does table a forest b trees := by
  induction h with
  | token hpasses hlength =>
    rw [Task.commentFree, Rule.commentFree, bne_iff_ne] at hfree
    obtain ⟨gap, hgap, hsheltered⟩ := hpasses.exists_gap
    obtain ⟨comments, rfl, hcomments⟩ := hpasses.exists_comments
    exact ⟨_ :: comments, rfl, .occupies hgap (fun _ => hsheltered rfl)
      (occupies_leaf hfree (Lexeme.holds_cover hlength) fun comment h => (hcomments comment h).1)⟩
  | glued hlength =>
    rw [Task.commentFree, Rule.commentFree, bne_iff_ne] at hfree
    exact ⟨[_], rfl, .occupies (.refl _) (fun _ => rfl)
      (occupies_leaf hfree (Lexeme.holds_cover hlength) (by simp))⟩
  | semicolon n hpasses | lineEnd n hpasses =>
    obtain ⟨gap, hgap, hsheltered⟩ := hpasses.exists_gap
    obtain ⟨comments, rfl, hcomments⟩ := hpasses.exists_comments
    exact ⟨_ :: comments, rfl, .occupies hgap (fun _ => hsheltered rfl)
      (occupies_leaf (by decide) (show Cover.bare.Holds _ from trivial) fun comment h => (hcomments comment h).1)⟩
  | trivia => cases htight
  | check | nothing | ahead | barred => exact ⟨[], rfl, .idle rfl rfl rfl⟩
  | seq hfirst hsecond ih ih' =>
    rw [Task.isTight, Rule.isTight, Bool.and_eq_true, Bool.or_eq_true] at htight
    rw [Task.commentFree, Rule.commentFree, Bool.and_eq_true] at hfree
    obtain ⟨more, rfl, htakes'⟩ := ih' htight.1 hfree.2
    rcases htight.2 with htight | htrivia
    · obtain ⟨added, rfl, htakes⟩ := ih htight hfree.1
      exact ⟨more ++ added, (List.append_assoc _ _ _).symm, htakes.append htakes'⟩
    · rw [Bool.and_eq_true, bne_iff_ne] at htrivia
      have hpasses := hfirst.passes htrivia.1
      obtain ⟨gap, hgap, -⟩ := hpasses.exists_gap
      obtain ⟨comments, rfl, hcomments⟩ := hpasses.exists_comments
      have hmore : more ≠ [] := by
        rintro rfl
        have hlength := hsecond.least_le hg.least
        rw [List.nil_append, Task.least] at hlength
        omega
      refine ⟨more ++ comments, (List.append_assoc _ _ _).symm, ?_⟩
      rw [Rule.cover, Rule.cover_of_isTrivia htrivia.1]
      exact htakes'.behind hgap (fun comment h => (hcomments comment h).1) hmore
  | first _ ih =>
    rw [Task.isTight, Rule.isTight, Bool.and_eq_true] at htight
    rw [Task.commentFree, Rule.commentFree, Bool.and_eq_true] at hfree
    obtain ⟨added, hadded, htakes⟩ := ih htight.1 hfree.1
    exact ⟨added, hadded, htakes.weaken (Cover.gives_orElse_left _ _)⟩
  | second _ ih =>
    rw [Task.isTight, Rule.isTight, Bool.and_eq_true] at htight
    rw [Task.commentFree, Rule.commentFree, Bool.and_eq_true] at hfree
    obtain ⟨added, hadded, htakes⟩ := ih htight.2 hfree.2
    exact ⟨added, hadded, htakes.weaken (Cover.gives_orElse_right _ _)⟩
  | manyNone => exact ⟨[], rfl, .idle (Cover.holds_repeated_nil _) rfl rfl⟩
  | manyMore _ _ ih ih' =>
    obtain ⟨added, rfl, htakes⟩ := ih htight hfree
    obtain ⟨more, rfl, htakes'⟩ := ih' htight hfree
    refine ⟨more ++ added, (List.append_assoc _ _ _).symm, ?_⟩
    have hboth := (htakes.weaken (Cover.gives_repeated _)).append htakes'
    rwa [Rule.cover, Cover.repeated_andThen_repeated] at hboth
  | node _ ih =>
    rw [Task.commentFree, Rule.commentFree, Bool.and_eq_true, bne_iff_ne] at hfree
    exact (ih htight hfree.2).takes.node hfree.1 _
  | role _ ih => exact ⟨_, rfl, (ih htight hfree).takes.setRole _⟩
  | chain _ hgrow ih ih' =>
    rw [Task.isTight, Rule.isTight, Bool.and_eq_true] at htight
    rw [Task.commentFree, Rule.commentFree, Bool.and_eq_true] at hfree
    refine ⟨_, rfl, ?_⟩
    cases (ih htight.1 hfree.1).takes with
    | idle hcover hcursor hadded =>
      subst hcursor hadded
      cases hgrow
      exact .idle (hcover.append_nil (Cover.holds_repeated_nil _)) rfl rfl
    | occupies hgap hsheltered h =>
      exact .occupies hgap (fun hne => hsheltered (Cover.ne_bare_of_andThen hne)) (ih' htight.2 hfree.2 h)
  | bracketed _ ih | untypedArrows _ ih => exact ih htight hfree
  | sym _ ih =>
    obtain ⟨added, hadded, htakes⟩ := ih (hg.isTight _) (hg.commentFree _)
    rw [hg.cover] at htakes
    exact ⟨added, hadded, htakes⟩
  | growNone => exact fun h => h.append_nil (Cover.holds_repeated_nil _)
  | growMore hlink _ _ ih ih' =>
    intro cover start h
    have hlinkTight := Link.isTight_of_mem htight hlink
    have hlinkFree := Link.commentFree_of_mem hfree hlink
    rw [Link.commentFree, Bool.and_eq_true, bne_iff_ne] at hlinkFree
    have htakes := (ih hlinkTight hlinkFree.2).takes
    have hgives := (Link.gives_cover_of_mem table hlink).trans (Cover.gives_repeated _)
    have hgrown := ih' htight hfree (h.grown (htakes.weaken hgives) hlinkFree.1 _)
    rwa [Cover.andThen_repeated_repeated] at hgrown

end AssetAudit.Script
