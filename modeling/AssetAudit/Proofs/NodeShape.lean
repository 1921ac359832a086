import AssetAudit.Proofs.PlaceOrder
import AssetAudit.Proofs.ReadingStep
import Mathlib.Data.List.TakeWhile

/-!
# What rules make

A tree of a unit is a token, what a rule read closed into a node (`closed`), or a tree that has grown. A
property of trees that each of these has, if the lexeme, the rule or the role it is made by meets a
condition (`Shape`, `Shape.Ensures`), is one of all nodes that such rules make (`Derives.each`).
-/
namespace AssetAudit.Script

open Cursor (At)

variable {σ : Type} {unit : List Char}

/-! ## All nodes of a tree -/

/-- Whether a node and all nodes below it have a property. -/
inductive Tree.Each (P : Tree → Prop) : Tree → Prop where
  | intro {tree : Tree} (node : P tree) (children : ∀ child ∈ tree.children, child.Each P) : tree.Each P

section Each

variable {P : Tree → Prop} {tree : Tree}

theorem Tree.Each.node (h : tree.Each P) : P tree := by
  cases h
  assumption

theorem Tree.Each.of_mem_children (h : tree.Each P) {child : Tree} (hchild : child ∈ tree.children) :
    child.Each P := by
  cases h with
  | intro _ children => exact children child hchild

theorem Tree.Each.withRole (h : tree.Each P) {r : Role} (hnode : P (tree.withRole r)) :
    (tree.withRole r).Each P := by
  refine ⟨hnode, fun child hchild => h.of_mem_children ?_⟩
  cases tree
  exact hchild

mutual

theorem Tree.Each.of_mem_visitsFrom : ∀ {tree : Tree}, tree.Each P →
    ∀ {around : List Tree} {visit : Visit}, visit ∈ tree.visitsFrom around → visit.node.Each P
  | .mk _ _ _ _, h, _, _, hvisit => by
    rw [Tree.visitsFrom] at hvisit
    rcases List.mem_cons.1 hvisit with rfl | hvisit
    · exact h
    · exact each_of_mem_forestVisits (fun child hchild => h.of_mem_children hchild) hvisit

theorem each_of_mem_forestVisits : ∀ {trees : List Tree}, (∀ tree ∈ trees, tree.Each P) →
    ∀ {around : List Tree} {visit : Visit}, visit ∈ forestVisits around trees → visit.node.Each P
  | tree :: trees, h, _, _, hvisit => by
    rw [forestVisits] at hvisit
    rcases List.mem_append.1 hvisit with hvisit | hvisit
    · exact (h tree List.mem_cons_self).of_mem_visitsFrom hvisit
    · exact each_of_mem_forestVisits (fun tree htree => h tree (List.mem_cons_of_mem _ htree)) hvisit

end

end Each

/-! ## Tokens and closed nodes -/

theorem chars_leaf {start : Cursor} (h : At unit start) (kind : Kind) (n : Nat) :
    (leaf kind start n).chars unit = start.rest.take n := by
  have hlength : (start.skip n).offset - start.offset = Text.byteLength (start.rest.take n) := by
    rw [Cursor.offset_skip, Nat.add_sub_cancel_left]
  have htake := Text.takeBytes_append (start.rest.take n) (start.rest.drop n)
  rw [List.take_append_drop] at htake
  show Text.slice unit ⟨start.offset, (start.skip n).offset⟩ = _
  rw [Text.slice, hlength, h.dropBytes_eq, htake]

/-- The tree that closing what was read makes, without the comments in front. -/
def closed (kind : Kind) (inner : List Tree) (offset : Nat) : Tree :=
  let body := inner.reverse.dropWhile (·.kind == .comment)
  .mk kind .plain (forestSpan offset body) body

theorem kind_setRole {r : Role} {trees : List Tree} {kind : Kind} (h : ∀ tree ∈ trees, tree.kind = kind) :
    ∀ tree ∈ setRole r trees, tree.kind = kind := by
  intro tree htree
  obtain ⟨before, hbefore, rfl⟩ := List.mem_map.1 htree
  split
  · exact h before hbefore
  · exact h before hbefore

theorem kind_of_mem_takeWhile {tree : Tree} {trees : List Tree}
    (h : tree ∈ trees.takeWhile (·.kind == .comment)) : tree.kind = .comment := by
  have hkind := List.mem_takeWhile_imp h
  rwa [beq_iff_eq] at hkind

/-- Closing leaves out the comments in front and keeps what follows. -/
theorem children_closed (kind : Kind) (more : List Tree) {comments : List Tree} {tree : Tree} (offset : Nat)
    (htree : tree.kind ≠ .comment) (hcomments : ∀ comment ∈ comments, comment.kind = .comment) :
    (closed kind (more ++ tree :: comments) offset).children = tree :: more.reverse := by
  have hall : ∀ comment ∈ comments.reverse, (comment.kind == .comment) = true :=
    fun comment h => beq_iff_eq.2 (hcomments comment (List.mem_reverse.1 h))
  show (more ++ tree :: comments).reverse.dropWhile (·.kind == .comment) = _
  rw [List.reverse_append, List.reverse_cons, List.append_assoc, List.dropWhile_append_of_pos hall,
    List.singleton_append, List.dropWhile_cons_of_neg (by simpa using htree)]

theorem start_closed {kind : Kind} {inner rest : List Tree} {tree : Tree} {offset : Nat}
    (h : (closed kind inner offset).children = tree :: rest) :
    (closed kind inner offset).span.start = tree.span.start := by
  have hbody : inner.reverse.dropWhile (·.kind == .comment) = tree :: rest := h
  show (forestSpan offset (inner.reverse.dropWhile (·.kind == .comment))).start = _
  rw [hbody, forestSpan, List.getLast?_cons]
  rfl

theorem mem_of_mem_children_closed {kind : Kind} {inner : List Tree} {offset : Nat} {child : Tree}
    (h : child ∈ (closed kind inner offset).children) : child ∈ inner :=
  List.mem_reverse.1 ((List.dropWhile_sublist _).subset h)

theorem mem_children_closed {kind : Kind} {inner : List Tree} {offset : Nat} {child : Tree}
    (h : child ∈ inner) (hkind : child.kind ≠ .comment) :
    child ∈ (closed kind inner offset).children := by
  have hmem := List.mem_reverse.2 h
  rw [← List.takeWhile_append_dropWhile (p := (·.kind == .comment)) (l := inner.reverse)] at hmem
  rcases List.mem_append.1 hmem with hmem | hmem
  · exact absurd (kind_of_mem_takeWhile hmem) hkind
  · exact hmem

/-- A closed node stands before the comments in front of it and the trees that were there. -/
theorem mem_closeNode {kind : Kind} {before inner : List Tree} {offset : Nat} {tree : Tree}
    (h : tree ∈ closeNode kind before inner offset) :
    tree = closed kind inner offset ∨ tree ∈ inner ∨ tree ∈ before := by
  rcases List.mem_cons.1 h with h | h
  · exact .inl h
  · rcases List.mem_append.1 h with h | h
    · exact .inr (.inl (List.mem_reverse.1 ((List.takeWhile_sublist _).subset (List.mem_reverse.1 h))))
    · exact .inr (.inr h)

/-! ## Shapes -/

/-- Conditions on what rules make: on a token by its lexeme, on a node by the rule inside it, and on what a
tree grows into by the role of the tree there. -/
structure Shape (σ : Type) where
  token : Lexeme → Kind → Bool
  node : Rule σ → Kind → Bool
  grown : Role → Kind → Bool

mutual

/-- Whether all that a rule makes meets the conditions. -/
def Rule.fits (shape : Shape σ) : Rule σ → Bool
  | .token lexeme kind | .glued lexeme kind => shape.token lexeme kind
  | .semicolon _ | .lineEnd _ | .trivia | .check _ | .nothing | .never | .sym _ => true
  | .seq first second | .either first second => first.fits shape && second.fits shape
  | .many rule | .role _ rule | .ahead rule | .barred rule | .bracketed _ rule | .untypedArrows rule =>
    rule.fits shape
  | .node kind rule => shape.node rule kind && rule.fits shape
  | .chain base links => base.fits shape && linksFit shape links

def linksFit (shape : Shape σ) : List (Link σ) → Bool
  | [] => true
  | link :: links => link.fits shape && linksFit shape links

def Link.fits (shape : Shape σ) : Link σ → Bool
  | .mk kind r _ rule => shape.grown r kind && rule.fits shape

end

theorem Link.fits_of_mem {shape : Shape σ} {link : Link σ} : ∀ {links : List (Link σ)},
    linksFit shape links = true → link ∈ links → link.fits shape = true
  | first :: links, h, hlink => by
    rw [linksFit, Bool.and_eq_true] at h
    rcases List.mem_cons.1 hlink with rfl | hlink
    · exact h.1
    · exact fits_of_mem h.2 hlink

/-- Whether the conditions make sure that trees have a property, whatever their role. -/
structure Shape.Ensures (shape : Shape σ) (g : Grammar σ) (unit : List Char) (P : Tree → Prop) : Prop where
  withRole : ∀ {tree : Tree} (r : Role), P tree → P (tree.withRole r)
  comment : ∀ {tree : Tree}, tree.kind = .comment → tree.children = [] → P tree
  mark : ∀ span : Span, P (.mk .token .plain span [])
  token : ∀ {lexeme : Lexeme} {kind : Kind} {start : Cursor} {n : Nat}, shape.token lexeme kind = true →
    lexeme.length? start.rest = some n → At unit start → P (leaf kind start n)
  node : ∀ {rule : Rule σ} {kind : Kind} {cursor after : Cursor} {inner : List Tree},
    shape.node rule kind = true → Derives g (.rule rule) cursor [] after inner → At unit cursor →
    P (closed kind inner after.offset)
  grown : ∀ {r : Role} {kind : Kind}, shape.grown r kind = true → ∀ (span : Span) (base : Tree)
    (rest : List Tree), P (.mk kind .plain span (base.withRole r :: rest))

def Task.fits (shape : Shape σ) : Task σ → Bool
  | .rule r => r.fits shape
  | .grow links => linksFit shape links

/-- Trees whose nodes have a property are joined by trees whose nodes have it. -/
theorem Derives.each {shape : Shape σ} {g : Grammar σ} {P : Tree → Prop} (hshape : shape.Ensures g unit P)
    (hg : ∀ symbol, (g symbol).fits shape = true) {task : Task σ} {cursor after : Cursor}
    {forest trees : List Tree} (h : Derives g task cursor forest after trees)
    (htask : task.fits shape = true) (hplace : At unit cursor) (hforest : ∀ tree ∈ forest, tree.Each P) :
    ∀ tree ∈ trees, tree.Each P := by
  have hpassed : ∀ {atStatement : Bool} {cursor after : Cursor} {forest trees : List Tree},
      Passes atStatement cursor forest after trees → (∀ tree ∈ forest, tree.Each P) →
      ∀ tree ∈ trees, tree.Each P :=
    fun hpasses hforest => hpasses.forall_mem hforest fun tree hkind hchildren =>
      ⟨hshape.comment hkind hchildren, by simp [hchildren]⟩
  have hnone : ∀ tree ∈ ([] : List Tree), tree.Each P := by simp
  have hleaf : ∀ {kind : Kind} {start : Cursor} {n : Nat}, P (leaf kind start n) →
      (leaf kind start n).Each P := fun hleaf => ⟨hleaf, hnone⟩
  induction h with
  | token hpasses hlength =>
    exact List.forall_mem_cons.2 ⟨hleaf (hshape.token htask hlength (hpasses.place hplace)),
      hpassed hpasses hforest⟩
  | glued hlength => exact List.forall_mem_cons.2 ⟨hleaf (hshape.token htask hlength hplace), hforest⟩
  | semicolon n hpasses | lineEnd n hpasses =>
    exact List.forall_mem_cons.2 ⟨hleaf (hshape.mark _), hpassed hpasses hforest⟩
  | trivia hpasses => exact hpassed hpasses hforest
  | check | nothing | manyNone | ahead | barred | growNone => exact hforest
  | seq hfirst _ ih ih' =>
    rw [Task.fits, Rule.fits, Bool.and_eq_true] at htask
    exact ih' htask.2 (hfirst.place hplace) (ih htask.1 hplace hforest)
  | first _ ih =>
    rw [Task.fits, Rule.fits, Bool.and_eq_true] at htask
    exact ih htask.1 hplace hforest
  | second _ ih =>
    rw [Task.fits, Rule.fits, Bool.and_eq_true] at htask
    exact ih htask.2 hplace hforest
  | manyMore hfirst _ ih ih' => exact ih' htask (hfirst.place hplace) (ih htask hplace hforest)
  | node hinner ih =>
    rw [Task.fits, Rule.fits, Bool.and_eq_true] at htask
    have hmade := ih htask.2 hplace hnone
    intro tree htree
    rcases mem_closeNode htree with rfl | htree | htree
    · exact ⟨hshape.node htask.1 hinner hplace,
        fun child hchild => hmade child (mem_of_mem_children_closed hchild)⟩
    · exact hmade tree htree
    · exact hforest tree htree
  | role _ ih =>
    refine List.forall_mem_append.2 ⟨fun tree htree => ?_, hforest⟩
    obtain ⟨before, hbefore, rfl⟩ := List.mem_map.1 htree
    have hmade := ih htask hplace hnone before hbefore
    split
    · exact hmade
    · exact hmade.withRole (hshape.withRole _ hmade.node)
  | chain hbase _ ih ih' =>
    rw [Task.fits, Rule.fits, Bool.and_eq_true] at htask
    exact List.forall_mem_append.2
      ⟨ih' htask.2 (hbase.place hplace) (ih htask.1 hplace hnone), hforest⟩
  | bracketed _ ih | untypedArrows _ ih => exact ih htask hplace hforest
  | sym _ ih => exact ih (hg _) hplace hforest
  | growMore hlink hinner _ ih ih' =>
    have hfits := Link.fits_of_mem htask hlink
    rw [Link.fits, Bool.and_eq_true] at hfits
    obtain ⟨hbase, hbefore⟩ := List.forall_mem_cons.1 hforest
    refine ih' htask (hinner.place hplace)
      (List.forall_mem_cons.2 ⟨⟨hshape.grown hfits.1 _ _ _, List.forall_mem_cons.2 ⟨?_, ?_⟩⟩, hbefore⟩)
    · exact hbase.withRole (hshape.withRole _ hbase.node)
    · exact fun tree htree => ih hfits.2 hplace hnone tree (List.mem_reverse.1 htree)

/-- All nodes of the tree of a unit have a property that the rules of the script grammar make sure of. -/
theorem each_parse {d : Dialect} {shape : Shape Symbol} {P : Tree → Prop}
    (hshape : shape.Ensures (grammar d) unit P) (hg : ∀ symbol, (grammar d symbol).fits shape = true)
    (hprogram : program.fits shape = true) {tree : Tree} (h : parse d unit = .ok tree)
    (hempty : P (.mk .program .plain ⟨0, 0⟩ [])) : tree.Each P := by
  unfold parse at h
  split at h
  · rename_i cursor first rest missed hread
    cases h
    exact (derives_read hread).each hshape hg hprogram (Cursor.at_ofText unit) (by simp) _
      List.mem_cons_self
  · cases h
    exact ⟨hempty, by simp [Tree.children]⟩
  · cases h

end AssetAudit.Script
