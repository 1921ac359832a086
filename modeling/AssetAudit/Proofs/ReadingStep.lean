import AssetAudit.Proofs.RuleDerivation
import AssetAudit.Script.Grammar

/-!
# What reading does

`Reads` says all that reading does to the place of a reader and to the trees it has read, the last one
first: blanks are passed over, tokens and comments are put before the other trees, and trees that were read
from some place on are closed into a node, given a role, put before the others or made to grow the tree
before them. What a rule derives is made of such steps (`Derives.reads`), if the rule puts no comments of its
own among the trees, and no rule of the script grammar does (`commentFree_grammar`).
-/
namespace AssetAudit.Script

variable {σ : Type}

/-! ## Rules without comments of their own -/

mutual

/-- Whether the trees that a rule makes, but for the comments it meets, are no comments. -/
def Rule.commentFree : Rule σ → Bool
  | .token _ kind | .glued _ kind => kind != .comment
  | .semicolon _ | .lineEnd _ | .trivia | .check _ | .nothing | .never | .sym _ => true
  | .seq first second | .either first second => first.commentFree && second.commentFree
  | .many rule | .role _ rule | .ahead rule | .barred rule | .bracketed _ rule | .untypedArrows rule =>
    rule.commentFree
  | .node kind rule => kind != .comment && rule.commentFree
  | .chain base links => base.commentFree && linksCommentFree links

def linksCommentFree : List (Link σ) → Bool
  | [] => true
  | link :: links => link.commentFree && linksCommentFree links

def Link.commentFree : Link σ → Bool
  | .mk kind _ _ rule => kind != .comment && rule.commentFree

end

theorem Link.commentFree_of_mem {link : Link σ} : ∀ {links : List (Link σ)},
    linksCommentFree links = true → link ∈ links → link.commentFree = true
  | first :: links, h, hlink => by
    rw [linksCommentFree, Bool.and_eq_true] at h
    rcases List.mem_cons.1 hlink with rfl | hlink
    · exact h.1
    · exact commentFree_of_mem h.2 hlink

/-- No operators are left beyond the tightest level. -/
theorem binary_of_le (d : Dialect) {level : Nat} (hlevel : 12 ≤ level) :
    Grammar.binary d level = .chain (.sym (.binary (level + 1)))
      [.mk .expression .left [] (.seq .never (Grammar.operand (level + 1)))] := by
  have hlength : Grammar.operators.length ≤ level := by
    show 11 ≤ level
    omega
  have hnone : Grammar.operators.getD level [] = [] := by
    rw [List.getD_eq_getElem?_getD, List.getElem?_eq_none hlength]
    rfl
  have hpower : (level == Grammar.powerLevel) = false := by
    rw [beq_eq_false_iff_ne]
    unfold Grammar.powerLevel
    omega
  have hrelation : (level == Grammar.relationLevel) = false := by
    rw [beq_eq_false_iff_ne]
    unfold Grammar.relationLevel
    omega
  rw [Grammar.binary, hpower, hrelation, hnone]
  rfl

/-- What the levels with operators have in common, and one without them, all levels have. -/
theorem forall_binary {d : Dialect} {P : Rule Symbol → Prop} (hlevels : ∀ n < 12, P (Grammar.binary d n))
    (hnone : ∀ level, P (.chain (.sym (.binary level))
      [.mk .expression .left [] (.seq .never (Grammar.operand level))])) (level : Nat) :
    P (Grammar.binary d level) := by
  by_cases hlevel : level < 12
  · exact hlevels level hlevel
  · rw [binary_of_le d (Nat.le_of_not_lt hlevel)]
    exact hnone _

/-- No rule of the script grammar makes comments. -/
theorem commentFree_grammar (d : Dialect) (symbol : Symbol) : (grammar d symbol).commentFree = true := by
  cases symbol with
  | binary level =>
    exact forall_binary (P := (·.commentFree = true)) (by cases d <;> decide) (fun _ => rfl) level
  | _ => cases d <;> rfl

/-! ## Steps of reading -/

/-- What reading does to the place of a reader and to the trees it has read. -/
inductive Reads : Cursor → List Tree → Cursor → List Tree → Prop where
  | refl (cursor : Cursor) (forest : List Tree) : Reads cursor forest cursor forest
  | trans {a b c : Cursor} {f g h : List Tree} : Reads a f b g → Reads b g c h → Reads a f c h
  | skip (cursor : Cursor) (forest : List Tree) (n : Nat) : Reads cursor forest (cursor.skip n) forest
  | token (cursor : Cursor) (forest : List Tree) (n : Nat) {kind : Kind} (hkind : kind ≠ .comment) :
    Reads cursor forest (cursor.skip n)
      (.mk kind .plain ⟨cursor.offset, (cursor.skip n).offset⟩ [] :: forest)
  | comment {cursor : Cursor} (forest : List Tree) {atStatement : Bool} {n : Nat}
    (h : comment? atStatement cursor.rest = some n) :
    Reads cursor forest (cursor.skip n)
      (.mk .comment .plain ⟨cursor.offset, (cursor.skip n).offset⟩ [] :: forest)
  | node {cursor after : Cursor} {inner : List Tree} (forest : List Tree) {kind : Kind}
    (hkind : kind ≠ .comment) : Reads cursor [] after inner →
    Reads cursor forest after (closeNode kind forest inner after.offset)
  | role {cursor after : Cursor} {inner : List Tree} (forest : List Tree) (r : Role) :
    Reads cursor [] after inner → Reads cursor forest after (setRole r inner ++ forest)
  | inner {cursor after : Cursor} {inner : List Tree} (forest : List Tree) :
    Reads cursor [] after inner → Reads cursor forest after (inner ++ forest)
  | grow {cursor after : Cursor} {inner : List Tree} (base : Tree) (forest : List Tree) {kind : Kind}
    (r : Role) (hkind : kind ≠ .comment) : Reads cursor [] after inner →
    Reads cursor (base :: forest) after
      (.mk kind .plain (forestSpan after.offset (base.withRole r :: inner.reverse))
        (base.withRole r :: inner.reverse) :: forest)

theorem Passes.reads {atStatement : Bool} {cursor after : Cursor} {forest trees : List Tree}
    (h : Passes atStatement cursor forest after trees) : Reads cursor forest after trees := by
  induction h with
  | refl cursor forest => exact .refl cursor forest
  | blanks cursor forest => exact .skip cursor forest _
  | comment forest hcomment => exact .comment forest hcomment
  | trans _ _ ih ih' => exact ih.trans ih'

/-- Whether a task puts no comments of its own among the trees. -/
def Task.commentFree : Task σ → Bool
  | .rule r => r.commentFree
  | .grow links => linksCommentFree links

/-- What is derived is made of such steps. -/
theorem Derives.reads {g : Grammar σ} (hg : ∀ symbol, (g symbol).commentFree = true) {task : Task σ}
    {cursor after : Cursor} {forest trees : List Tree} (h : Derives g task cursor forest after trees)
    (htask : task.commentFree = true) : Reads cursor forest after trees := by
  induction h with
  | token hpasses _ =>
    rw [Task.commentFree, Rule.commentFree, bne_iff_ne] at htask
    exact hpasses.reads.trans (.token _ _ _ htask)
  | glued _ =>
    rw [Task.commentFree, Rule.commentFree, bne_iff_ne] at htask
    exact .token _ _ _ htask
  | semicolon n hpasses | lineEnd n hpasses => exact hpasses.reads.trans (.token _ _ n (by decide))
  | trivia hpasses => exact hpasses.reads
  | check | nothing | manyNone | ahead | barred | growNone => exact .refl _ _
  | seq _ _ ih ih' =>
    rw [Task.commentFree, Rule.commentFree, Bool.and_eq_true] at htask
    exact (ih htask.1).trans (ih' htask.2)
  | first _ ih =>
    rw [Task.commentFree, Rule.commentFree, Bool.and_eq_true] at htask
    exact ih htask.1
  | second _ ih =>
    rw [Task.commentFree, Rule.commentFree, Bool.and_eq_true] at htask
    exact ih htask.2
  | manyMore _ _ ih ih' => exact (ih htask).trans (ih' htask)
  | node _ ih =>
    rw [Task.commentFree, Rule.commentFree, Bool.and_eq_true, bne_iff_ne] at htask
    exact .node _ htask.1 (ih htask.2)
  | role _ ih => exact .role _ _ (ih htask)
  | chain _ _ ih ih' =>
    rw [Task.commentFree, Rule.commentFree, Bool.and_eq_true] at htask
    exact .inner _ ((ih htask.1).trans (ih' htask.2))
  | bracketed _ ih | untypedArrows _ ih => exact ih htask
  | sym _ ih => exact ih (hg _)
  | growMore hlink _ _ ih ih' =>
    have hfree := Link.commentFree_of_mem htask hlink
    rw [Link.commentFree, Bool.and_eq_true, bne_iff_ne] at hfree
    exact (Reads.grow _ _ _ hfree.1 (ih hfree.2)).trans (ih' htask)

/-- A unit is read by such steps. -/
theorem reads_program (d : Dialect) (s : Setting) (n : Nat) {p q : Progress}
    (h : read (grammar d) s n program p = .done q) : Reads p.cursor p.forest q.cursor q.forest :=
  (derives_read h).reads (commentFree_grammar d) rfl

end AssetAudit.Script
