import AssetAudit.Proofs.CursorPlace
import AssetAudit.Script.Rule

/-!
# Derivations of rules

`Derives` says what reading a rule does, rule by rule: where the reader ends and which trees it has then,
the last one first. Nothing is said of the bound on the depth, of the tokens that were missed and of what
was tried in vain, so a choice derives what one of its alternatives does. Growing the last tree by links is
a task of its own. Whatever is read is derived (`derives_read`, by induction on the bound).

A derivation leads from a place in a text to a place in it (`Derives.place`), and what reading a rule adds
comes before the trees that were there (`Derives.exists_append`).
-/
namespace AssetAudit.Script

variable {σ : Type}

/-! ## Tasks and derivations -/

/-- What a reader can be asked for: to read a rule, or to grow the last tree as often as links allow. -/
inductive Task (σ : Type) where
  | rule (rule : Rule σ)
  | grow (links : List (Link σ))

/-- A tree without children that covers `n` characters. -/
def leaf (kind : Kind) (cursor : Cursor) (n : Nat) : Tree :=
  .mk kind .plain ⟨cursor.offset, (cursor.skip n).offset⟩ []

/-- Passing over blanks and comments, which are put before the trees read so far. -/
inductive Passes (atStatement : Bool) : Cursor → List Tree → Cursor → List Tree → Prop where
  | refl (cursor : Cursor) (forest : List Tree) : Passes atStatement cursor forest cursor forest
  | blanks (cursor : Cursor) (forest : List Tree) :
    Passes atStatement cursor forest (cursor.skip (blanks cursor.rest)) forest
  | comment {cursor : Cursor} (forest : List Tree) {n : Nat}
    (h : comment? atStatement cursor.rest = some n) :
    Passes atStatement cursor forest (cursor.skip n) (leaf .comment cursor n :: forest)
  | trans {a b c : Cursor} {f f' f'' : List Tree} :
    Passes atStatement a f b f' → Passes atStatement b f' c f'' → Passes atStatement a f c f''

/-- What a task does to the place of a reader and to the trees it has read. -/
inductive Derives (g : Grammar σ) : Task σ → Cursor → List Tree → Cursor → List Tree → Prop where
  | token {cursor start : Cursor} {forest passed : List Tree} {lexeme : Lexeme} {kind : Kind} {n : Nat}
    (hpasses : Passes false cursor forest start passed) (hlength : lexeme.length? start.rest = some n) :
    Derives g (.rule (.token lexeme kind)) cursor forest (start.skip n) (leaf kind start n :: passed)
  | glued {cursor : Cursor} {forest : List Tree} {lexeme : Lexeme} {kind : Kind} {n : Nat}
    (hlength : lexeme.length? cursor.rest = some n) :
    Derives g (.rule (.glued lexeme kind)) cursor forest (cursor.skip n) (leaf kind cursor n :: forest)
  | semicolon {cursor start : Cursor} {forest passed : List Tree} {ending : Ending} (n : Nat)
    (hpasses : Passes false cursor forest start passed) :
    Derives g (.rule (.semicolon ending)) cursor forest (start.skip n) (leaf .token start n :: passed)
  | lineEnd {cursor start : Cursor} {forest passed : List Tree} {ending : Ending} (n : Nat)
    (hpasses : Passes false cursor forest start passed) :
    Derives g (.rule (.lineEnd ending)) cursor forest (start.skip n) (leaf .token start n :: passed)
  | trivia {cursor after : Cursor} {forest passed : List Tree}
    (hpasses : Passes true cursor forest after passed) :
    Derives g (.rule .trivia) cursor forest after passed
  | check {cursor : Cursor} {forest : List Tree} {condition : Condition} :
    Derives g (.rule (.check condition)) cursor forest cursor forest
  | nothing {cursor : Cursor} {forest : List Tree} :
    Derives g (.rule .nothing) cursor forest cursor forest
  | seq {a b c : Cursor} {f f' f'' : List Tree} {first second : Rule σ} :
    Derives g (.rule first) a f b f' → Derives g (.rule second) b f' c f'' →
    Derives g (.rule (.seq first second)) a f c f''
  | first {a b : Cursor} {f f' : List Tree} {first second : Rule σ} :
    Derives g (.rule first) a f b f' → Derives g (.rule (.either first second)) a f b f'
  | second {a b : Cursor} {f f' : List Tree} {first second : Rule σ} :
    Derives g (.rule second) a f b f' → Derives g (.rule (.either first second)) a f b f'
  | manyNone {cursor : Cursor} {forest : List Tree} {rule : Rule σ} :
    Derives g (.rule (.many rule)) cursor forest cursor forest
  | manyMore {a b c : Cursor} {f f' f'' : List Tree} {rule : Rule σ} :
    Derives g (.rule rule) a f b f' → Derives g (.rule (.many rule)) b f' c f'' →
    Derives g (.rule (.many rule)) a f c f''
  | node {a b : Cursor} {forest inner : List Tree} {kind : Kind} {rule : Rule σ} :
    Derives g (.rule rule) a [] b inner →
    Derives g (.rule (.node kind rule)) a forest b (closeNode kind forest inner b.offset)
  | role {a b : Cursor} {forest inner : List Tree} {r : Role} {rule : Rule σ} :
    Derives g (.rule rule) a [] b inner →
    Derives g (.rule (.role r rule)) a forest b (setRole r inner ++ forest)
  | chain {a b c : Cursor} {forest inner grown : List Tree} {base : Rule σ} {links : List (Link σ)} :
    Derives g (.rule base) a [] b inner → Derives g (.grow links) b inner c grown →
    Derives g (.rule (.chain base links)) a forest c (grown ++ forest)
  | ahead {cursor : Cursor} {forest : List Tree} {rule : Rule σ} :
    Derives g (.rule (.ahead rule)) cursor forest cursor forest
  | barred {cursor : Cursor} {forest : List Tree} {rule : Rule σ} :
    Derives g (.rule (.barred rule)) cursor forest cursor forest
  | bracketed {a b : Cursor} {f f' : List Tree} {inside : Bool} {rule : Rule σ} :
    Derives g (.rule rule) a f b f' → Derives g (.rule (.bracketed inside rule)) a f b f'
  | untypedArrows {a b : Cursor} {f f' : List Tree} {rule : Rule σ} :
    Derives g (.rule rule) a f b f' → Derives g (.rule (.untypedArrows rule)) a f b f'
  | sym {a b : Cursor} {f f' : List Tree} {symbol : σ} :
    Derives g (.rule (g symbol)) a f b f' → Derives g (.rule (.sym symbol)) a f b f'
  | growNone {cursor : Cursor} {forest : List Tree} {links : List (Link σ)} :
    Derives g (.grow links) cursor forest cursor forest
  | growMore {a b c : Cursor} {base : Tree} {before inner grown : List Tree} {kind : Kind} {r : Role}
    {onto : List Kind} {rule : Rule σ} {links : List (Link σ)} (hlink : .mk kind r onto rule ∈ links) :
    Derives g (.rule rule) a [] b inner →
    Derives g (.grow links) b (.mk kind .plain (forestSpan b.offset (base.withRole r :: inner.reverse))
      (base.withRole r :: inner.reverse) :: before) c grown →
    Derives g (.grow links) a (base :: before) c grown

/-! ## What is read is derived -/

theorem passes_passTrivia (atStatement : Bool) (n : Nat) (cursor : Cursor) (forest : List Tree) :
    Passes atStatement cursor forest (passTrivia atStatement n cursor forest).1
      (passTrivia atStatement n cursor forest).2 := by
  induction n generalizing cursor forest with
  | zero => exact .refl cursor forest
  | succ n ih =>
    have hblanks : Passes atStatement cursor forest _ forest := .blanks cursor forest
    rw [passTrivia]
    simp only
    split
    · exact hblanks
    · rename_i length hcomment
      exact hblanks.trans ((Passes.comment forest hcomment).trans (ih _ _))

/-- Whether a reader does what a task derives. -/
def Follows (g : Grammar σ) (task : Task σ) (reader : Progress → Reply) : Prop :=
  ∀ {p q : Progress}, reader p = .done q → Derives g task p.cursor p.forest q.cursor q.forest

theorem leaf_of_readToken {lexeme : Lexeme} {kind : Kind} {cursor : Cursor} {forest : List Tree}
    {missed : Nat} {q : Progress} (h : readToken lexeme kind cursor forest missed = .done q) :
    ∃ n, lexeme.length? cursor.rest = some n ∧ q.cursor = cursor.skip n ∧
      q.forest = leaf kind cursor n :: forest := by
  unfold readToken at h
  split at h
  · cases h
  · rename_i n hlength
    cases h
    exact ⟨n, hlength, rfl, rfl⟩

theorem leaf_of_readEnd (typed afterExpression written : Bool) (n : Nat) : ∀ {p q : Progress},
    readEnd typed afterExpression written n p = .done q → ∃ start passed length,
      Passes false p.cursor p.forest start passed ∧ q.cursor = start.skip length ∧
      q.forest = leaf .token start length :: passed := by
  induction n with
  | zero =>
    intro p q h
    cases h
  | succ n ih =>
    intro p q h
    have hblanks : Passes false p.cursor p.forest _ p.forest := .blanks p.cursor p.forest
    rw [readEnd] at h
    split at h
    · cases h
      exact ⟨p.cursor, p.forest, 0, .refl _ _, rfl, rfl⟩
    · simp only at h
      split at h
      · rename_i length hcomment
        obtain ⟨start, passed, m, hpasses, hend⟩ := ih h
        exact ⟨start, passed, m, hblanks.trans ((Passes.comment p.forest hcomment).trans hpasses), hend⟩
      · split at h
        · obtain ⟨m, -, hend⟩ := leaf_of_readToken h
          exact ⟨_, p.forest, m, hblanks, hend⟩
        · cases h

section Rules

variable {g : Grammar σ} {n : Nat} (hread : ∀ s rule, Follows g (.rule rule) (read g s n rule))
  (hgrow : ∀ s links, Follows g (.grow links) (grow g s n links))

include hread hgrow in
theorem derives_read_succ (s : Setting) (rule : Rule σ) : Follows g (.rule rule) (read g s (n + 1) rule) := by
  intro p q h
  cases rule with
  | token lexeme kind =>
    obtain ⟨m, hlength, hcursor, htrees⟩ := leaf_of_readToken h
    rw [hcursor, htrees]
    exact .token (passes_passTrivia false n p.cursor p.forest) hlength
  | glued lexeme kind =>
    obtain ⟨m, hlength, hcursor, htrees⟩ := leaf_of_readToken h
    rw [hcursor, htrees]
    exact .glued hlength
  | semicolon ending =>
    obtain ⟨start, passed, m, hpasses, hcursor, htrees⟩ := leaf_of_readEnd _ _ _ _ h
    rw [hcursor, htrees]
    exact .semicolon m hpasses
  | lineEnd ending =>
    obtain ⟨start, passed, m, hpasses, hcursor, htrees⟩ := leaf_of_readEnd _ _ _ _ h
    rw [hcursor, htrees]
    exact .lineEnd m hpasses
  | trivia =>
    cases h
    exact .trivia (passes_passTrivia true n p.cursor p.forest)
  | check condition =>
    rw [read] at h
    split at h
    · cases h
      exact .check
    · cases h
  | nothing =>
    cases h
    exact .nothing
  | never => cases h
  | seq first second =>
    rw [read] at h
    split at h
    · rename_i p' hfirst
      exact .seq (hread s first hfirst) (hread s second h)
    · cases h
  | either first second =>
    rw [read] at h
    split at h
    · rename_i p' hfirst
      cases h
      exact .first (hread s first hfirst)
    · have hsecond := hread s second h
      exact .second hsecond
  | many rule =>
    rw [read] at h
    split at h
    · rename_i p' hfirst
      split at h
      · cases h
        exact .manyMore (hread s rule hfirst) .manyNone
      · exact .manyMore (hread s rule hfirst) (hread s (.many rule) h)
    · cases h
      exact .manyNone
  | node kind rule =>
    rw [read] at h
    split at h
    · rename_i p' hinner
      cases h
      exact .node (hread s rule hinner)
    · cases h
  | role r rule =>
    rw [read] at h
    split at h
    · rename_i p' hinner
      cases h
      exact .role (hread s rule hinner)
    · cases h
  | chain base links =>
    rw [read] at h
    split at h
    · rename_i p' hbase
      split at h
      · rename_i p'' hgrown
        cases h
        exact .chain (hread s base hbase) (hgrow s links hgrown)
      · cases h
    · cases h
  | ahead rule =>
    rw [read] at h
    split at h
    · cases h
      exact .ahead
    · cases h
  | barred rule =>
    rw [read] at h
    split at h
    · cases h
    · cases h
      exact .barred
  | bracketed inside rule => exact .bracketed (hread _ rule h)
  | untypedArrows rule => exact .untypedArrows (hread _ rule h)
  | sym symbol => exact .sym (hread s (g symbol) h)

end Rules

/-- What growing the last tree once does, by one of the links. -/
def Grows (g : Grammar σ) (links : List (Link σ)) (reader : Progress → Reply) : Prop :=
  ∀ {p q : Progress}, reader p = .done q → ∃ kind r onto rule base before inner,
    .mk kind r onto rule ∈ links ∧ p.forest = base :: before ∧
    Derives g (.rule rule) p.cursor [] q.cursor inner ∧
    q.forest = .mk kind .plain (forestSpan q.cursor.offset (base.withRole r :: inner.reverse))
      (base.withRole r :: inner.reverse) :: before

theorem grows_readLink_succ {g : Grammar σ} {n : Nat}
    (hread : ∀ s rule, Follows g (.rule rule) (read g s n rule))
    (hlink : ∀ s links, Grows g links (readLink g s n links)) (s : Setting) (links : List (Link σ)) :
    Grows g links (readLink g s (n + 1) links) := by
  intro p q h
  obtain ⟨cursor, forest, missed⟩ := p
  cases links with
  | nil => cases h
  | cons link links =>
    obtain ⟨kind, r, onto, rule⟩ := link
    have hlater : ∀ {missed' : Nat}, readLink g s n links ⟨cursor, forest, missed'⟩ = .done q → _ :=
      fun h => hlink s links h
    have hmore : ∀ {link : Link σ}, link ∈ links → link ∈ Link.mk kind r onto rule :: links :=
      fun h => List.mem_cons_of_mem _ h
    rw [readLink] at h
    simp only at h
    split at h
    · cases h
    · rename_i base before
      split at h
      · split at h
        · rename_i p' hinner
          cases h
          exact ⟨kind, r, onto, rule, base, before, _, List.mem_cons_self, rfl, hread s rule hinner, rfl⟩
        · obtain ⟨kind, r, onto, rule, base, before, inner, hmem, hrest⟩ := hlater h
          exact ⟨kind, r, onto, rule, base, before, inner, hmore hmem, hrest⟩
      · obtain ⟨kind, r, onto, rule, base, before, inner, hmem, hrest⟩ := hlater h
        exact ⟨kind, r, onto, rule, base, before, inner, hmore hmem, hrest⟩

theorem derives_read_all (g : Grammar σ) (n : Nat) :
    (∀ s rule, Follows g (.rule rule) (read g s n rule)) ∧
      (∀ s links, Follows g (.grow links) (grow g s n links)) ∧
      ∀ s links, Grows g links (readLink g s n links) := by
  induction n with
  | zero =>
    refine ⟨fun s rule p q h => ?_, fun s links p q h => ?_, fun s links p q h => ?_⟩
    · cases h
    · cases h
      exact .growNone
    · cases h
  | succ n ih =>
    obtain ⟨hread, hgrow, hlink⟩ := ih
    refine ⟨derives_read_succ hread hgrow, fun s links p q h => ?_, grows_readLink_succ hread hlink⟩
    rw [grow] at h
    split at h
    · rename_i p' hgrown
      obtain ⟨kind, r, onto, rule, base, before, inner, hmem, hforest, hinner, htrees⟩ := hlink s links hgrown
      rw [hforest]
      have hrest := hgrow s links h
      rw [htrees] at hrest
      exact .growMore hmem hinner hrest
    · cases h
      exact .growNone

/-- What is read of a rule is derived from it. -/
theorem derives_read {g : Grammar σ} {s : Setting} {n : Nat} {rule : Rule σ} {p q : Progress}
    (h : read g s n rule p = .done q) : Derives g (.rule rule) p.cursor p.forest q.cursor q.forest :=
  (derives_read_all g n).1 s rule h

/-! ## Places and trees -/

variable {g : Grammar σ} {task : Task σ} {cursor after : Cursor} {forest trees : List Tree}
  {atStatement : Bool}

theorem Passes.place {text : List Char} (h : Passes atStatement cursor forest after trees)
    (hplace : cursor.At text) : after.At text := by
  induction h with
  | refl => exact hplace
  | blanks cursor forest => exact hplace.skip _
  | comment forest hcomment => exact hplace.skip _
  | trans _ _ ih ih' => exact ih' (ih hplace)

/-- What is passed over is put before the trees that were there, and is all comments. -/
theorem Passes.exists_comments (h : Passes atStatement cursor forest after trees) :
    ∃ comments, trees = comments ++ forest ∧
      ∀ tree ∈ comments, tree.kind = .comment ∧ tree.children = [] := by
  induction h with
  | refl | blanks => exact ⟨[], rfl, by simp⟩
  | comment forest hcomment => exact ⟨[_], rfl, by simp [leaf, Tree.kind, Tree.children]⟩
  | trans _ _ ih ih' =>
    obtain ⟨comments, rfl, hcomments⟩ := ih
    obtain ⟨others, rfl, hothers⟩ := ih'
    refine ⟨others ++ comments, (List.append_assoc _ _ _).symm, fun tree htree => ?_⟩
    exact (List.mem_append.1 htree).elim (hothers tree) (hcomments tree)

theorem Passes.forall_mem {P : Tree → Prop} (h : Passes atStatement cursor forest after trees)
    (hforest : ∀ tree ∈ forest, P tree)
    (hcomment : ∀ tree, tree.kind = .comment → tree.children = [] → P tree) : ∀ tree ∈ trees, P tree := by
  obtain ⟨comments, rfl, hcomments⟩ := h.exists_comments
  intro tree htree
  rcases List.mem_append.1 htree with htree | htree
  · exact hcomment tree (hcomments tree htree).1 (hcomments tree htree).2
  · exact hforest tree htree

theorem Derives.place {text : List Char} (h : Derives g task cursor forest after trees)
    (hplace : cursor.At text) : after.At text := by
  induction h with
  | token hpasses _ => exact (hpasses.place hplace).skip _
  | glued _ => exact hplace.skip _
  | semicolon n hpasses | lineEnd n hpasses => exact (hpasses.place hplace).skip n
  | trivia hpasses => exact hpasses.place hplace
  | check | nothing | manyNone | ahead | barred | growNone => exact hplace
  | seq _ _ ih ih' | manyMore _ _ ih ih' | chain _ _ ih ih' | growMore _ _ _ ih ih' => exact ih' (ih hplace)
  | first _ ih | second _ ih | node _ ih | role _ ih | bracketed _ ih | untypedArrows _ ih | sym _ ih =>
    exact ih hplace

/-- What reading a rule adds comes before the trees that were there. -/
theorem Derives.exists_append {rule : Rule σ} (h : Derives g (.rule rule) cursor forest after trees) :
    ∃ more, trees = more ++ forest := by
  generalize htask : Task.rule rule = task at h
  induction h generalizing rule with
  | token hpasses _ | semicolon _ hpasses | lineEnd _ hpasses =>
    obtain ⟨comments, rfl, -⟩ := hpasses.exists_comments
    exact ⟨_ :: comments, rfl⟩
  | glued _ => exact ⟨[_], rfl⟩
  | trivia hpasses =>
    obtain ⟨comments, rfl, -⟩ := hpasses.exists_comments
    exact ⟨comments, rfl⟩
  | role _ _ | chain _ _ _ _ => exact ⟨_, rfl⟩
  | check | nothing | manyNone | ahead | barred => exact ⟨[], rfl⟩
  | seq _ _ ih ih' | manyMore _ _ ih ih' =>
    obtain ⟨more, rfl⟩ := ih rfl
    obtain ⟨more', rfl⟩ := ih' rfl
    exact ⟨more' ++ more, (List.append_assoc _ _ _).symm⟩
  | first _ ih | second _ ih | bracketed _ ih | untypedArrows _ ih | sym _ ih => exact ih rfl
  | node _ _ => exact ⟨_ :: _, rfl⟩
  | growNone | growMore _ _ _ _ _ => cases htask

end AssetAudit.Script
