import AssetAudit.Proofs.NodeForm
import AssetAudit.Proofs.TextSearch
import AssetAudit.Proofs.TreePlace
import AssetAudit.Script.Extract

/-!
# Bound handlers

A handler can be a function written in place, or such a function with arguments bound to it, which is a call
of `bind` on it, perhaps on what `bind` gave before (`BindsFunction`). Its definition is then the one of
functions without a name, however often it is bound (`definitionName_of_bindsFunction`). Whether it counts as
anonymous is not told in the same way: a function is, but a call is told by its text alone. So a bound arrow
function is anonymous, whose arrow is part of the text, and a bound function of the other form only if the
text has one of three marks (`isAnonymous_iff`).
-/
namespace AssetAudit.Script

variable {unit : List Char}

/-- Whether a node is a function written in place. -/
def Tree.IsFunction (tree : Tree) : Prop := tree.kind = .arrow ∨ tree.kind = .functionExpression

/-- Whether a handler is a function, or a call of `bind` on such a handler. -/
inductive BindsFunction (unit : List Char) (function : Tree) : Tree → Prop where
  | direct (hfunction : function.IsFunction) : BindsFunction unit function function
  | bind {call member target property : Tree} (hcall : call.kind = .call)
    (hcallee : call.child? .callee = some member) (hmember : member.kind = .member)
    (hobject : member.child? .object = some target) (hproperty : member.child? .property = some property)
    (hbind : property.text unit = "bind") (h : BindsFunction unit function target) :
    BindsFunction unit function call

/-- The marks by which the text of a handler is taken to hold a function. -/
def functionMarks : List String := ["=>", "function(", "function ("]

/-! ## Definitions -/

theorem definitionName_of_isFunction {function : Tree} (h : function.IsFunction) :
    definitionName unit function = anonymousHandler := by
  obtain ⟨kind, r, s, cs⟩ := function
  rcases h with ⟨⟨⟩⟩ | ⟨⟨⟩⟩
  · rw [definitionName]
  · rw [definitionName]

/-- A call of `bind` is known by the definition of what it is called on. -/
theorem definitionName_bind {call member target property : Tree} (hmade : call.WellMade unit)
    (hcall : call.kind = .call) (hcallee : call.child? .callee = some member)
    (hmember : member.kind = .member) (hobject : member.child? .object = some target)
    (hproperty : member.child? .property = some property) (hbind : property.text unit = "bind") :
    definitionName unit call = definitionName unit target := by
  obtain ⟨callee, others, hchildren, hrole⟩ := hmade.node.call hcall
  rw [Tree.child?_of_children hchildren hrole, Option.some.injEq] at hcallee
  subst hcallee
  have hbelow := hmade.of_mem_children (hchildren ▸ List.mem_cons_self)
  obtain ⟨object, rest, hparts, hfirst⟩ := hbelow.node.member hmember
  rw [Tree.child?_of_children hparts hfirst, Option.some.injEq] at hobject
  subst hobject
  have hfind : rest.find? (·.role == .property) = some property := by
    have hother : (object.role == Role.property) = false := by rw [hfirst]; rfl
    rw [Tree.child?, hparts, List.find?_cons, hother] at hproperty
    exact hproperty
  obtain ⟨kind, r, s, cs⟩ := call
  obtain ⟨kind', r', s', cs'⟩ := callee
  cases hcall
  cases hmember
  cases hchildren
  cases hparts
  rw [definitionName, hfind]
  simp only [hbind, BEq.rfl, if_true]

theorem definitionName_of_bindsFunction {function handler : Tree} (h : BindsFunction unit function handler)
    (hmade : handler.WellMade unit) : definitionName unit handler = anonymousHandler := by
  induction h with
  | direct hfunction => exact definitionName_of_isFunction hfunction
  | bind hcall hcallee hmember hobject hproperty hbind _ ih =>
    rw [definitionName_bind hmade hcall hcallee hmember hobject hproperty hbind]
    exact ih ((hmade.of_mem_children (Tree.mem_of_child? hcallee)).of_mem_children
      (Tree.mem_of_child? hobject))

/-! ## Texts -/

theorem Tree.Placed.infix_chars {tree child : Tree} (h : tree.Placed unit) (hchild : child ∈ tree.children) :
    child.chars unit <:+: tree.chars unit := by
  obtain ⟨before, after, hparts, -⟩ := h.exists_chars hchild
  exact ⟨before, after, by rw [hparts, List.append_assoc]⟩

section Functions

variable {function handler : Tree} (h : BindsFunction unit function handler)
include h

/-- The text of a function is part of the text of a handler that binds it. -/
theorem BindsFunction.infix_chars (hplaced : handler.Placed unit) :
    function.chars unit <:+: handler.chars unit := by
  induction h with
  | direct _ => exact List.infix_refl _
  | bind _ hcallee _ hobject _ _ _ ih =>
    have hmember := Tree.mem_of_child? hcallee
    have htarget := Tree.mem_of_child? hobject
    have hinside := hplaced.laid.of_mem hmember
    exact ((ih (hinside.laid.of_mem htarget)).trans (hinside.infix_chars htarget)).trans
      (hplaced.infix_chars hmember)

theorem BindsFunction.placed (hplaced : handler.Placed unit) : function.Placed unit := by
  induction h with
  | direct _ => exact hplaced
  | bind _ hcallee _ hobject _ _ _ ih =>
    exact ih ((hplaced.laid.of_mem (Tree.mem_of_child? hcallee)).laid.of_mem (Tree.mem_of_child? hobject))

theorem BindsFunction.wellMade (hmade : handler.WellMade unit) : function.WellMade unit := by
  induction h with
  | direct _ => exact hmade
  | bind _ hcallee _ hobject _ _ _ ih =>
    exact ih ((hmade.of_mem_children (Tree.mem_of_child? hcallee)).of_mem_children
      (Tree.mem_of_child? hobject))

end Functions

theorem isAnonymous_eq_true {tree : Tree} : isAnonymous unit tree = true ↔
    tree.IsFunction ∨ ∃ mark ∈ functionMarks, mark.toList <:+: tree.chars unit := by
  simp only [isAnonymous, Tree.IsFunction, functionMarks, Bool.or_eq_true, beq_iff_eq, List.any_eq_true,
    Text.contains_iff]

/-- A handler that binds a function is anonymous if it is the function itself, if the function is an arrow
function, or if the text of the handler has one of the marks; otherwise it is not. -/
theorem BindsFunction.isAnonymous_iff {function handler : Tree} (h : BindsFunction unit function handler)
    (hplaced : handler.Placed unit) (hmade : handler.WellMade unit) :
    isAnonymous unit handler = true ↔ handler.IsFunction ∨ function.kind = .arrow ∨
      ∃ mark ∈ functionMarks, mark.toList <:+: handler.chars unit := by
  rw [isAnonymous_eq_true]
  constructor
  · rintro (hfunction | hmark)
    · exact .inl hfunction
    · exact .inr (.inr hmark)
  · rintro (hfunction | harrow | hmark)
    · exact .inl hfunction
    · -- the arrow is a child of the function, whose text is part of the handler's
      obtain ⟨child, hchild, hchars⟩ := (h.wellMade hmade).node.arrow harrow
      have hinside := (h.placed hplaced).infix_chars hchild
      rw [hchars] at hinside
      exact .inr ⟨"=>", List.mem_cons_self, hinside.trans (h.infix_chars hplaced)⟩
    · exact .inr hmark

end AssetAudit.Script
