import AssetAudit.Proofs.NodeShape

/-!
# The forms of nodes

What a node of some kinds is made of does not depend on the text it was read from: an identifier is a word,
so it starts with no bracket; a string stands between two quotation marks; a declarator starts with what it
names, an identifier or a pattern in brackets; a declaration of variables holds declarators; an arrow function
holds an arrow; a call starts with what is called, and a member with the object it belongs to
(`Tree.Formed`). Each of these is seen from the rules that make such nodes (`forms`, `ensures_forms`), and
the rules of the script grammar pass (`formed_grammar`). So all nodes of the tree of a unit have their forms
(`wellMade_parse`).
-/
namespace AssetAudit.Script

open Cursor (At)

variable {σ : Type} {unit : List Char}

/-! ## Forms -/

/-- Whether a text starts, but with no bracket of a pattern. -/
def StartsName (chars : List Char) : Prop := ∃ c rest, chars = c :: rest ∧ c ≠ '[' ∧ c ≠ '\x7b'

/-- Whether a text stands between two quotation marks of one kind. -/
def IsQuotation (chars : List Char) : Prop :=
  ∃ mark body, (mark = '"' ∨ mark = '\'') ∧ chars = mark :: (body ++ [mark])

/-- Whether the first child of a node, with which the node starts, is the opening bracket of a pattern. -/
def Tree.OpensBracket (unit : List Char) (tree : Tree) : Prop :=
  ∃ first rest, tree.children = first :: rest ∧ tree.span.start = first.span.start ∧
    (first.chars unit = ['['] ∨ first.chars unit = ['\x7b'])

/-- Whether a node can be what a declarator names: an identifier, or a pattern in brackets. -/
def Tree.IsTarget (unit : List Char) (tree : Tree) : Prop :=
  tree.kind = .identifier ∨ tree.kind = .pattern ∧ tree.OpensBracket unit

/-- Whether a node can be a child of a declaration of variables. -/
def Tree.IsDeclarationPart (tree : Tree) : Prop :=
  tree.kind = .token ∨ tree.kind = .comment ∨ tree.kind = .declarator

/-- What is known of a node from its kind. -/
structure Tree.Formed (unit : List Char) (tree : Tree) : Prop where
  comment : tree.kind = .comment → tree.children = []
  identifier : tree.kind = .identifier → StartsName (tree.chars unit)
  string : tree.kind = .string → IsQuotation (tree.chars unit)
  declarator : tree.kind = .declarator →
    ∃ name rest, tree.children = name :: rest ∧ name.role = .name ∧ name.IsTarget unit
  declaration : tree.kind = .varDeclaration ∨ tree.kind = .lexicalDeclaration →
    ∀ child ∈ tree.children, child.IsDeclarationPart
  arrow : tree.kind = .arrow → ∃ child ∈ tree.children, child.chars unit = ['=', '>']
  call : tree.kind = .call → ∃ callee rest, tree.children = callee :: rest ∧ callee.role = .callee
  member : tree.kind = .member → ∃ object rest, tree.children = object :: rest ∧ object.role = .object

/-- Whether a node and all nodes below it have their forms. -/
abbrev Tree.WellMade (unit : List Char) (tree : Tree) : Prop := tree.Each (Tree.Formed unit)

namespace Tree

variable {tree : Tree}

theorem mem_named {child : Tree} : child ∈ tree.named ↔ child ∈ tree.children ∧ child.kind ≠ .token := by
  rw [named, List.mem_filter, bne_iff_ne]

theorem mem_of_child? {child : Tree} {r : Role} (h : tree.child? r = some child) : child ∈ tree.children :=
  List.mem_of_find?_eq_some h

theorem child?_of_children {first : Tree} {rest : List Tree} {r : Role} (h : tree.children = first :: rest)
    (hrole : first.role = r) : tree.child? r = some first := by
  have hfirst : (first.role == r) = true := beq_iff_eq.2 hrole
  rw [child?, h, List.find?_cons, hfirst]

theorem IsTarget.withRole (h : tree.IsTarget unit) (r : Role) : (tree.withRole r).IsTarget unit := by
  cases tree
  exact h

theorem IsTarget.kind_ne (h : tree.IsTarget unit) : tree.kind ≠ .comment := by
  rcases h with h | ⟨h, -⟩ <;> rw [h] <;> decide

theorem Formed.withRole (h : tree.Formed unit) (r : Role) : (tree.withRole r).Formed unit := by
  cases tree
  exact ⟨h.comment, h.identifier, h.string, h.declarator, h.declaration, h.arrow, h.call, h.member⟩

end Tree

/-! ## Tokens -/

/-- A word starts with no bracket. -/
theorem startsName_of_word? {text : List Char} {n : Nat} (h : word? text = some n) :
    StartsName (text.take n) := by
  cases text with
  | nil => cases h
  | cons c rest =>
    rw [word?] at h
    split at h
    · cases h
    · split at h
      · cases h
      · rename_i hnone
        cases h
        obtain ⟨m, hm⟩ := Nat.exists_eq_succ_of_ne_zero hnone
        refine ⟨c, rest.take m, by rw [hm, List.take_succ_cons], ?_, ?_⟩
        · rintro rfl
          exact hnone rfl
        · rintro rfl
          exact hnone rfl

theorem Lexeme.take_of_startsWith : ∀ {letters text : List Char}, Lexeme.startsWith letters text = true →
    text.take letters.length = letters
  | [], _, _ => rfl
  | c :: letters, [], h => by cases h
  | c :: letters, d :: text, h => by
    rw [startsWith, Bool.and_eq_true, beq_iff_eq] at h
    rw [List.length_cons, List.take_succ_cons, take_of_startsWith h.2, h.1]

/-- A symbol is the text it stands for. -/
theorem Lexeme.take_of_symbol {s barred : String} {text : List Char} {n : Nat}
    (h : (Lexeme.symbol s barred).length? text = some n) : text.take n = s.toList := by
  rw [length?] at h
  split at h
  · rename_i hstarts
    have hn : n = s.toList.length := by
      split at h
      · split at h
        · cases h
        · cases h
          rfl
      · cases h
        rfl
    rw [hn]
    exact take_of_startsWith hstarts
  · cases h

/-- A reader that goes on by one character until it has read a mark has read a text that ends with the mark.
What it has met before is its state. -/
theorem exists_take_of_steps {tail : Nat → List Char → Option Nat} {mark : Char}
    (hnil : ∀ state, tail state [] = none)
    (hcons : ∀ state c rest n, tail state (c :: rest) = some n →
      n = 1 ∧ c = mark ∨ ∃ next, (tail next rest).map (· + 1) = some n) :
    ∀ {text : List Char} {state n : Nat}, tail state text = some n → ∃ body, text.take n = body ++ [mark]
  | [], state, _, h => by
    rw [hnil state] at h
    cases h
  | c :: rest, state, n, h => by
    rcases hcons state c rest n h with ⟨rfl, rfl⟩ | ⟨next, hnext⟩
    · exact ⟨[], rfl⟩
    · obtain ⟨m, hrest, rfl⟩ := Option.map_eq_some_iff.1 hnext
      obtain ⟨body, hbody⟩ := exists_take_of_steps hnil hcons hrest
      exact ⟨c :: body, by rw [List.take_succ_cons, hbody]; rfl⟩

theorem exists_take_of_quotedTail {mark : Char} {text : List Char} {n : Nat}
    (h : quotedTail mark 0 text = some n) : ∃ body, text.take n = body ++ [mark] := by
  refine exists_take_of_steps (fun _ => rfl) (fun state c rest n h => ?_) h
  unfold quotedTail at h
  split at h
  · exact .inr ⟨_, h⟩
  · split at h
    · rename_i hclose
      cases h
      exact .inl ⟨rfl, beq_iff_eq.1 hclose⟩
    · split at h
      · split at h
        · exact .inr ⟨_, h⟩
        · cases h
      · split at h
        · cases h
        · exact .inr ⟨_, h⟩

theorem exists_take_of_markupQuotedTail {mark : Char} {text : List Char} {n : Nat}
    (h : markupQuotedTail mark 0 text = some n) : ∃ body, text.take n = body ++ [mark] := by
  refine exists_take_of_steps (fun _ => rfl) (fun state c rest n h => ?_) h
  unfold markupQuotedTail at h
  split at h
  · exact .inr ⟨_, h⟩
  · split at h
    · rename_i hclose
      cases h
      exact .inl ⟨rfl, beq_iff_eq.1 hclose⟩
    · split at h
      · split at h
        · exact .inr ⟨_, h⟩
        · split at h
          · split at h
            · cases h
            · exact .inr ⟨_, h⟩
          · cases h
      · exact .inr ⟨_, h⟩

/-- Whether tokens of a kind can be made of a lexeme. -/
def Lexeme.forms (lexeme : Lexeme) : Kind → Bool
  | .identifier =>
    match lexeme with
    | .identifier | .word | .wordExcept _ => true
    | _ => false
  | .string =>
    match lexeme with
    | .quoted | .markupQuoted => true
    | _ => false
  | .declarator | .arrow | .call | .member => false
  | _ => true

/-- What is read as an identifier starts with no bracket. -/
theorem Lexeme.startsName {lexeme : Lexeme} {text : List Char} {n : Nat}
    (hform : lexeme.forms .identifier = true) (h : lexeme.length? text = some n) :
    StartsName (text.take n) := by
  cases lexeme with
  | word => exact startsName_of_word? h
  | identifier | wordExcept words =>
    rw [length?] at h
    split at h
    · rename_i m hword
      split at h
      · cases h
      · cases h
        exact startsName_of_word? hword
    · cases h
  | _ => cases hform

/-- What is read as a string stands between quotation marks. -/
theorem Lexeme.isQuotation {lexeme : Lexeme} {text : List Char} {n : Nat}
    (hform : lexeme.forms .string = true) (h : lexeme.length? text = some n) :
    IsQuotation (text.take n) := by
  have hquoted : ∀ {mark : Char} {rest : List Char} {length : Option Nat},
      (∀ m, length = some m → ∃ body, rest.take m = body ++ [mark]) → (mark = '"' ∨ mark = '\'') →
      length.map (· + 1) = some n → IsQuotation ((mark :: rest).take n) := by
    intro mark rest length hlength hmark h
    obtain ⟨m, hm, rfl⟩ := Option.map_eq_some_iff.1 h
    obtain ⟨body, hbody⟩ := hlength m hm
    exact ⟨mark, body, hmark, by rw [List.take_succ_cons, hbody]⟩
  cases lexeme with
  | quoted =>
    rw [length?] at h
    unfold quoted? at h
    split at h
    · exact hquoted (fun _ => exists_take_of_quotedTail) (.inl rfl) h
    · exact hquoted (fun _ => exists_take_of_quotedTail) (.inr rfl) h
    · cases h
  | markupQuoted =>
    rw [length?] at h
    unfold markupQuoted? at h
    split at h
    · exact hquoted (fun _ => exists_take_of_markupQuotedTail) (.inl rfl) h
    · exact hquoted (fun _ => exists_take_of_markupQuotedTail) (.inr rfl) h
    · cases h
  | _ => cases hform

/-! ## Rules that keep the forms -/

namespace Rule

/-- Whether a rule reads the opening bracket of a pattern first. -/
def opensBracket : Rule σ → Bool
  | .seq (.token (.symbol s _) kind) _ => kind == .token && (s == "[" || s == "\x7b")
  | _ => false

/-- Whether a rule makes one tree, which a declarator can name. -/
def names : Rule σ → Bool
  | .token _ kind => kind == .identifier
  | .node kind rule => kind == .pattern && rule.opensBracket
  | .either first second => first.names && second.names
  | _ => false

def namesFirst : Rule σ → Bool
  | .seq (.role r rule) _ => r == .name && rule.names
  | _ => false

/-- Whether a rule reads a token first, as what is called. -/
def callsFirst : Rule σ → Bool
  | .seq (.role r (.token _ kind)) _ => r == .callee && kind != .comment
  | _ => false

/-- Whether a rule makes no other nodes than declarators. -/
def declares : Rule σ → Bool
  | .token _ kind | .glued _ kind => kind == .token
  | .semicolon _ | .lineEnd _ | .trivia | .check _ | .nothing | .never | .ahead _ | .barred _ => true
  | .seq first second | .either first second => first.declares && second.declares
  | .many rule | .bracketed _ rule | .untypedArrows rule => rule.declares
  | .node kind _ => kind == .declarator
  | .role _ _ | .chain _ _ | .sym _ => false

/-- Whether a rule surely reads an arrow. -/
def putsArrow : Rule σ → Bool
  | .token (.symbol s _) kind => kind == .token && s == "=>"
  | .seq first second => first.putsArrow || second.putsArrow
  | .either first second => first.putsArrow && second.putsArrow
  | _ => false

end Rule

/-- Whether nodes of a kind can be made of what a rule reads. -/
def Rule.forms (rule : Rule σ) : Kind → Bool
  | .comment | .identifier | .string | .member => false
  | .declarator => rule.namesFirst
  | .call => rule.callsFirst
  | .varDeclaration | .lexicalDeclaration => rule.declares
  | .arrow => rule.putsArrow
  | _ => true

/-- Whether trees can grow into nodes of a kind, of which they are the first child in a role. -/
def Role.forms (r : Role) : Kind → Bool
  | .comment | .identifier | .string | .declarator | .varDeclaration | .lexicalDeclaration | .arrow => false
  | .call => r == .callee
  | .member => r == .object
  | _ => true

/-- The conditions on rules that make nodes of their forms. -/
def forms : Shape σ := ⟨Lexeme.forms, Rule.forms, Role.forms⟩

/-- The rules of the script grammar keep the forms. -/
theorem formed_grammar (d : Dialect) (symbol : Symbol) : (grammar d symbol).fits forms = true := by
  cases symbol with
  | binary level =>
    exact forall_binary (P := (·.fits forms = true)) (by cases d <;> decide) (fun _ => rfl) level
  | _ => cases d <;> rfl

/-! ## What such rules derive -/

/-- Whether a task is to read a rule of some sort. -/
def Task.reads (sort : Rule σ → Bool) : Task σ → Bool
  | .rule r => sort r
  | .grow _ => false

section Forms

variable {g : Grammar σ} {task : Task σ} {rule : Rule σ} {cursor after : Cursor}
  {forest trees inner : List Tree}

/-- A symbol that is read first is the first child of what is closed. -/
theorem Derives.exists_first_token {s barred : String} {second : Rule σ}
    (h : Derives g (.rule (.seq (.token (.symbol s barred) .token) second)) cursor [] after inner)
    (hplace : At unit cursor) (kind : Kind) :
    ∃ first rest, (closed kind inner after.offset).children = first :: rest ∧
      first.chars unit = s.toList := by
  cases h with
  | seq hfirst hsecond =>
    obtain ⟨more, rfl⟩ := hsecond.exists_append
    cases hfirst with
    | token hpasses hlength =>
      obtain ⟨comments, rfl, hcomments⟩ := hpasses.exists_comments
      rw [List.append_nil]
      refine ⟨_, _, children_closed kind more _ (by simp [leaf, Tree.kind])
        fun comment h => (hcomments comment h).1, ?_⟩
      rw [chars_leaf (hpasses.place hplace), Lexeme.take_of_symbol hlength]

theorem Derives.opensBracket (h : Derives g (.rule rule) cursor [] after inner)
    (hrule : rule.opensBracket = true) (hplace : At unit cursor) (kind : Kind) :
    (closed kind inner after.offset).OpensBracket unit := by
  unfold Rule.opensBracket at hrule
  split at hrule
  · rename_i s barred kind' second
    rw [Bool.and_eq_true, Bool.or_eq_true, beq_iff_eq, beq_iff_eq, beq_iff_eq] at hrule
    obtain ⟨rfl, hs⟩ := hrule
    obtain ⟨first, rest, hchildren, hchars⟩ := h.exists_first_token hplace kind
    refine ⟨first, rest, hchildren, start_closed hchildren, ?_⟩
    rw [hchars]
    rcases hs with rfl | rfl
    · exact .inl rfl
    · exact .inr rfl
  · cases hrule

/-- A rule that names something puts it before the comments it meets. -/
theorem Derives.exists_target (h : Derives g task cursor forest after trees)
    (htask : task.reads Rule.names = true) (hplace : At unit cursor) :
    ∃ target comments, trees = target :: (comments ++ forest) ∧ target.IsTarget unit ∧
      ∀ comment ∈ comments, comment.kind = .comment := by
  induction h with
  | token hpasses hlength =>
    rw [Task.reads, Rule.names, beq_iff_eq] at htask
    obtain ⟨comments, rfl, hcomments⟩ := hpasses.exists_comments
    exact ⟨_, comments, rfl, .inl htask, fun comment h => (hcomments comment h).1⟩
  | node hinner _ =>
    rw [Task.reads, Rule.names, Bool.and_eq_true, beq_iff_eq] at htask
    obtain ⟨rfl, hopens⟩ := htask
    refine ⟨_, _, rfl, .inr ⟨rfl, hinner.opensBracket hopens hplace _⟩, fun comment h => ?_⟩
    exact kind_of_mem_takeWhile (List.mem_reverse.1 h)
  | first _ ih =>
    rw [Task.reads, Rule.names, Bool.and_eq_true] at htask
    exact ih htask.1 hplace
  | second _ ih =>
    rw [Task.reads, Rule.names, Bool.and_eq_true] at htask
    exact ih htask.2 hplace
  | _ => cases htask

/-- Whether what was read is one tree, which has a property, behind comments. -/
def EndsWith (P : Tree → Prop) (trees : List Tree) : Prop :=
  ∃ target comments, trees = target :: comments ∧ P target ∧ target.kind ≠ .comment ∧
    ∀ comment ∈ comments, comment.kind = .comment

/-- What is read first in a role is the first child of what is closed, if it is one tree behind the
comments it meets. -/
theorem Derives.exists_first_role {P : Tree → Prop} {r : Role} {first second : Rule σ}
    (h : Derives g (.rule (.seq (.role r first) second)) cursor [] after inner)
    (hfirst : ∀ middle trees, Derives g (.rule first) cursor [] middle trees → EndsWith P trees)
    (kind : Kind) : ∃ target rest, (closed kind inner after.offset).children = target.withRole r :: rest ∧
      P target := by
  cases h with
  | seq hrole hsecond =>
    obtain ⟨more, rfl⟩ := hsecond.exists_append
    cases hrole with
    | role hinner =>
      obtain ⟨target, comments, rfl, hP, htarget, hcomments⟩ := hfirst _ _ hinner
      have hrole : setRole r (target :: comments) = target.withRole r :: setRole r comments := by
        rw [setRole, List.map_cons, if_neg (by simpa using htarget)]
        rfl
      rw [List.append_nil, hrole]
      exact ⟨target, _, children_closed kind more _ htarget (kind_setRole hcomments), hP⟩

/-- What is named first is the first child of what is closed. -/
theorem Derives.namesFirst (h : Derives g (.rule rule) cursor [] after inner)
    (hrule : rule.namesFirst = true) (hplace : At unit cursor) (kind : Kind) :
    ∃ name rest, (closed kind inner after.offset).children = name :: rest ∧ name.role = .name ∧
      name.IsTarget unit := by
  unfold Rule.namesFirst at hrule
  split at hrule
  · rename_i r named second
    rw [Bool.and_eq_true, beq_iff_eq] at hrule
    obtain ⟨rfl, hnames⟩ := hrule
    have hnamed : ∀ middle trees, Derives g (.rule named) cursor [] middle trees →
        EndsWith (Tree.IsTarget unit) trees := by
      intro middle trees hinner
      obtain ⟨target, comments, rfl, htarget, hcomments⟩ := hinner.exists_target hnames hplace
      rw [List.append_nil]
      exact ⟨target, comments, rfl, htarget, htarget.kind_ne, hcomments⟩
    obtain ⟨target, rest, hchildren, htarget⟩ := h.exists_first_role hnamed kind
    exact ⟨_, rest, hchildren, rfl, htarget.withRole .name⟩
  · cases hrule

/-- What is called first is the first child of what is closed. -/
theorem Derives.callsFirst (h : Derives g (.rule rule) cursor [] after inner)
    (hrule : rule.callsFirst = true) (kind : Kind) :
    ∃ callee rest, (closed kind inner after.offset).children = callee :: rest ∧ callee.role = .callee := by
  unfold Rule.callsFirst at hrule
  split at hrule
  · rename_i r lexeme kind' second
    rw [Bool.and_eq_true, beq_iff_eq, bne_iff_ne] at hrule
    obtain ⟨rfl, htoken⟩ := hrule
    have hcalled : ∀ middle trees, Derives g (.rule (.token lexeme kind')) cursor [] middle trees →
        EndsWith (fun _ => True) trees := by
      intro middle trees hinner
      cases hinner with
      | token hpasses _ =>
        obtain ⟨comments, rfl, hcomments⟩ := hpasses.exists_comments
        rw [List.append_nil]
        exact ⟨_, comments, rfl, trivial, htoken, fun comment h => (hcomments comment h).1⟩
    obtain ⟨callee, rest, hchildren, -⟩ := h.exists_first_role hcalled kind
    exact ⟨_, rest, hchildren, rfl⟩
  · cases hrule

/-- A rule that makes declarators makes parts of a declaration only. -/
theorem Derives.declares (h : Derives g task cursor forest after trees)
    (htask : task.reads Rule.declares = true) (hforest : ∀ tree ∈ forest, tree.IsDeclarationPart) :
    ∀ tree ∈ trees, tree.IsDeclarationPart := by
  have hpassed : ∀ {atStatement : Bool} {cursor after : Cursor} {forest trees : List Tree},
      Passes atStatement cursor forest after trees → (∀ tree ∈ forest, tree.IsDeclarationPart) →
      ∀ tree ∈ trees, tree.IsDeclarationPart :=
    fun hpasses hforest => hpasses.forall_mem hforest fun tree hkind _ => .inr (.inl hkind)
  induction h with
  | token hpasses _ =>
    rw [Task.reads, Rule.declares, beq_iff_eq] at htask
    exact List.forall_mem_cons.2 ⟨.inl htask, hpassed hpasses hforest⟩
  | glued _ =>
    rw [Task.reads, Rule.declares, beq_iff_eq] at htask
    exact List.forall_mem_cons.2 ⟨.inl htask, hforest⟩
  | semicolon _ hpasses | lineEnd _ hpasses =>
    exact List.forall_mem_cons.2 ⟨.inl rfl, hpassed hpasses hforest⟩
  | trivia hpasses => exact hpassed hpasses hforest
  | check | nothing | manyNone | ahead | barred => exact hforest
  | seq _ _ ih ih' =>
    rw [Task.reads, Rule.declares, Bool.and_eq_true] at htask
    exact ih' htask.2 (ih htask.1 hforest)
  | first _ ih =>
    rw [Task.reads, Rule.declares, Bool.and_eq_true] at htask
    exact ih htask.1 hforest
  | second _ ih =>
    rw [Task.reads, Rule.declares, Bool.and_eq_true] at htask
    exact ih htask.2 hforest
  | manyMore _ _ ih ih' => exact ih' htask (ih htask hforest)
  | bracketed _ ih | untypedArrows _ ih => exact ih htask hforest
  | node _ _ =>
    rw [Task.reads, Rule.declares, beq_iff_eq] at htask
    refine List.forall_mem_cons.2 ⟨.inr (.inr htask), List.forall_mem_append.2 ⟨?_, hforest⟩⟩
    intro tree htree
    exact .inr (.inl (kind_of_mem_takeWhile (List.mem_reverse.1 htree)))
  | role _ _ | chain _ _ _ _ | sym _ _ | growNone | growMore _ _ _ _ _ => cases htask

/-- A rule that surely reads an arrow has it among its trees. -/
theorem Derives.putsArrow (h : Derives g task cursor forest after trees)
    (htask : task.reads Rule.putsArrow = true) (hplace : At unit cursor) :
    ∃ tree ∈ trees, tree.kind = .token ∧ tree.chars unit = ['=', '>'] := by
  induction h with
  | @token cursor start forest passed lexeme kind n hpasses hlength =>
    cases lexeme with
    | symbol s barred =>
      rw [Task.reads, Rule.putsArrow, Bool.and_eq_true, beq_iff_eq, beq_iff_eq] at htask
      obtain ⟨rfl, rfl⟩ := htask
      refine ⟨_, List.mem_cons_self, rfl, ?_⟩
      rw [chars_leaf (hpasses.place hplace), Lexeme.take_of_symbol hlength]
      rfl
    | _ => cases htask
  | seq hfirst hsecond ih ih' =>
    rw [Task.reads, Rule.putsArrow, Bool.or_eq_true] at htask
    rcases htask with htask | htask
    · obtain ⟨tree, htree, harrow⟩ := ih htask hplace
      obtain ⟨more, rfl⟩ := hsecond.exists_append
      exact ⟨tree, List.mem_append_right more htree, harrow⟩
    · exact ih' htask (hfirst.place hplace)
  | first _ ih =>
    rw [Task.reads, Rule.putsArrow, Bool.and_eq_true] at htask
    exact ih htask.1 hplace
  | second _ ih =>
    rw [Task.reads, Rule.putsArrow, Bool.and_eq_true] at htask
    exact ih htask.2 hplace
  | _ => cases htask

end Forms

/-! ## The forms of all nodes -/

theorem formed_comment {tree : Tree} (hkind : tree.kind = .comment) (hchildren : tree.children = []) :
    tree.Formed unit := by
  refine ⟨fun _ => hchildren, fun h => ?_, fun h => ?_, fun h => ?_, fun h => ?_, fun h => ?_, fun h => ?_,
    fun h => ?_⟩
  all_goals
    rw [hkind] at h
    exact absurd h (by decide)

/-- A token has its form, if the lexeme can make such tokens. -/
theorem formed_leaf {lexeme : Lexeme} {kind : Kind} {start : Cursor} {n : Nat}
    (hform : lexeme.forms kind = true) (hlength : lexeme.length? start.rest = some n)
    (hplace : At unit start) : (leaf kind start n).Formed unit := by
  have hnone : ∀ child, child ∉ (leaf kind start n).children := fun child => List.not_mem_nil
  refine ⟨fun _ => rfl, ?_, ?_, ?_, fun _ child hchild => absurd hchild (hnone child), ?_, ?_, ?_⟩
  · rintro ⟨⟩
    rw [chars_leaf hplace]
    exact Lexeme.startsName hform hlength
  · rintro ⟨⟩
    rw [chars_leaf hplace]
    exact Lexeme.isQuotation hform hlength
  all_goals
    rintro ⟨⟩
    cases hform

/-- What a rule reads is closed into a node that has its form, if the rule can make such nodes. -/
theorem formed_closed {g : Grammar σ} {rule : Rule σ} {kind : Kind} {cursor after : Cursor}
    {inner : List Tree} (hform : rule.forms kind = true) (h : Derives g (.rule rule) cursor [] after inner)
    (hplace : At unit cursor) : (closed kind inner after.offset).Formed unit where
  comment := by
    rintro ⟨⟩
    cases hform
  identifier := by
    rintro ⟨⟩
    cases hform
  string := by
    rintro ⟨⟩
    cases hform
  declarator := by
    rintro ⟨⟩
    exact h.namesFirst hform hplace .declarator
  declaration := by
    intro hkind child hchild
    have hdeclares : rule.declares = true := by
      rcases hkind with ⟨⟨⟩⟩ | ⟨⟨⟩⟩
      · exact hform
      · exact hform
    exact h.declares hdeclares (by simp) child (mem_of_mem_children_closed hchild)
  arrow := by
    rintro ⟨⟩
    obtain ⟨tree, htree, hkind, hchars⟩ := h.putsArrow hform hplace
    exact ⟨tree, mem_children_closed htree (by rw [hkind]; decide), hchars⟩
  call := by
    rintro ⟨⟩
    exact h.callsFirst hform .call
  member := by
    rintro ⟨⟩
    cases hform

/-- A tree grows into a node that has its form, if it can be the first child of such nodes. -/
theorem formed_grown {r : Role} {kind : Kind} (hform : r.forms kind = true) (span : Span) (base : Tree)
    (rest : List Tree) : (Tree.mk kind .plain span (base.withRole r :: rest)).Formed unit where
  comment := by
    rintro ⟨⟩
    cases hform
  identifier := by
    rintro ⟨⟩
    cases hform
  string := by
    rintro ⟨⟩
    cases hform
  declarator := by
    rintro ⟨⟩
    cases hform
  declaration := by
    rintro (⟨⟨⟩⟩ | ⟨⟨⟩⟩) <;> cases hform
  arrow := by
    rintro ⟨⟩
    cases hform
  call := by
    rintro ⟨⟩
    exact ⟨base.withRole r, rest, rfl, beq_iff_eq.1 hform⟩
  member := by
    rintro ⟨⟩
    exact ⟨base.withRole r, rest, rfl, beq_iff_eq.1 hform⟩

/-- Nothing is asked of punctuation and of empty units. -/
theorem formed_bare {kind : Kind} (hkind : kind = .token ∨ kind = .program) (span : Span) :
    (Tree.mk kind .plain span []).Formed unit := by
  rcases hkind with rfl | rfl
  · exact ⟨nofun, nofun, nofun, nofun, nofun, nofun, nofun, nofun⟩
  · exact ⟨nofun, nofun, nofun, nofun, nofun, nofun, nofun, nofun⟩

theorem ensures_forms (g : Grammar σ) (unit : List Char) : forms.Ensures g unit (Tree.Formed unit) where
  withRole := fun r h => h.withRole r
  comment := formed_comment
  mark := formed_bare (.inl rfl)
  token := formed_leaf
  node := formed_closed
  grown := formed_grown

/-- All nodes of the tree of a unit have their forms. -/
theorem wellMade_parse {d : Dialect} {tree : Tree} (h : parse d unit = .ok tree) : tree.WellMade unit :=
  each_parse (ensures_forms (grammar d) unit) (formed_grammar d) rfl h (formed_bare (.inr rfl) _)

end AssetAudit.Script
