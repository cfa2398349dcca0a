/-
# Operations

What the handlers of operators and of their applications do with the nodes of their
parts. An operator without a node is handed on; an application checks the class of its
operator before it places its operands in their order.
-/

import TreeLowering.Lowering.Operation
import TreeLowering.Proofs.Reduction.Places
import TreeLowering.Proofs.Reduction.Rules

namespace TreeLowering.Lowering

open TreeLowering.Reduced

variable {r : Reduction} {items : List Reduced}

theorem tokenWords_yields (item : Reduced) :
    Yields (tokenWords item) fun _ => item.roots = [] := by
  rw [tokenWords.eq_def]
  split
  · exact .ok rfl
  · exact .error trivial

theorem lexeme_yields (items : List Reduced) :
    Yields (lexeme items) fun _ => rootsOf items = [] := by
  rw [lexeme]
  apply Yields.bind (.mapM_forall fun item _ => tokenWords_yields item)
  intro words hwords
  dsimp only
  split
  · exact .error trivial
  · exact .ok (rootsOf_eq_nil hwords)

theorem operator_yields : Yields (operator r items) (Reduces r items) := by
  rw [operator]
  apply Yields.bind (lexeme_yields items)
  intro text hgiven
  split
  · exact .ok (.passed (.operator _) hgiven.symm)
  · exact .error trivial
  · exact .error trivial

/-! ## Comparison chains -/

/-- A chain keeps its operands in order, and its operators compare. -/
theorem splitChain_yields : ∀ items : List Reduced,
    Yields (splitChain items) fun found =>
      rootsOf items = found.2 ∧ ∀ op ∈ found.1, op.operatorClass = .comparison
  | [] => .ok ⟨rfl, by simp⟩
  | .operator op :: rest => by
      rw [splitChain]
      split
      case isTrue hclass =>
        apply Yields.bind (splitChain_yields rest)
        intro (ops, operands) hrest
        exact .ok ⟨hrest.1, List.forall_mem_cons.mpr ⟨hclass, hrest.2⟩⟩
      case isFalse => exact .error trivial
  | .node n :: rest => by
      rw [splitChain]
      apply Yields.bind (splitChain_yields rest)
      intro (ops, operands) hrest
      exact .ok ⟨congrArg (n :: ·) hrest.1, hrest.2⟩
  | .nodes _ :: _ => .error trivial
  | .token _ :: _ => .error trivial
  | .fragment .. :: _ => .error trivial
  | .absent :: _ => .error trivial
  | .pair _ _ :: _ => .error trivial
  | .unpack _ :: _ => .error trivial
  | .dotted _ :: _ => .error trivial
  | .level _ :: _ => .error trivial
  | .clause _ :: _ => .error trivial
  | .parameter _ :: _ => .error trivial

theorem comparison_yields : Yields (comparison r items) (Reduces r items) := by
  rw [comparison_eq]
  apply Yields.bind (expectNode_yields _ _)
  intro left hleft
  apply Yields.bind (splitChain_yields _)
  intro (ops, comparators) hchain
  dsimp only
  split
  case isTrue => exact .error trivial
  case isFalse hsame =>
    have hgiven := rootsOf_first hleft hchain.1
    simp only [Bool.or_eq_true, List.isEmpty_iff, bne_iff_ne, not_or, not_not] at hsame
    rw [r.build_of_slots rfl]
    exact .ok (.built (.compare hgiven hsame.1 hchain.2 hsame.2))

/-! ## Single operators -/

theorem operatorAndRight_yields (rule : Rule) (items : List Reduced) :
    Yields (operatorAndRight rule items) fun found => rootsOf items = [found.2] := by
  rw [operatorAndRight_eq]
  split
  · rename_i hhead
    apply Yields.bind (expectNode_yields _ _)
    intro right hright
    apply Yields.bind (noMore_yields _)
    intro _ hrest
    have hfirst := rootsOf_of_head? hhead
    exact .ok (rootsOf_first hfirst (rootsOf_drop hright (rootsOf_end hrest)))
  · rename_i hhead _
    apply Yields.bind (noMore_yields _)
    intro _ hrest
    exact .ok (rootsOf_first (rootsOf_of_head? hhead) (rootsOf_end hrest))
  · exact .error trivial

theorem binary_yields : Yields (binary r items) (Reduces r items) := by
  rw [binary_eq]
  apply Yields.bind (expectNode_yields _ _)
  intro left hleft
  apply Yields.bind (operatorAndRight_yields _ _)
  intro (op, right) hright
  dsimp only
  split
  case isTrue hclass =>
    rw [r.build_of_slots rfl]
    exact .ok (.built (.binOp (rootsOf_first hleft hright) hclass))
  case isFalse => exact .error trivial

/-- The operands of a boolean chain are all its nodes: the parts left out have none. -/
theorem booleanOperands_yields (items : List Reduced) :
    Yields (booleanOperands items) fun values => rootsOf items = values := by
  induction items with
  | nil => exact .ok rfl
  | cons item rest ih =>
      rw [booleanOperands, List.filter_cons]
      split
      case isTrue hoperand =>
        rw [List.mapM_cons]
        apply Yields.bind (expectNode_yields _ _)
        intro value hvalue
        apply Yields.bind ih
        intro values hvalues
        have hfirst : item.roots = [value] := by simpa using hvalue
        exact .ok (by rw [rootsOf, hfirst, hvalues]; rfl)
      case isFalse hfiller =>
        have hnone : item.roots = [] := by
          cases item <;> simp_all [Reduced.operator?, isFiller]
        apply ih.mono
        intro values hvalues
        rw [rootsOf, hnone, hvalues, List.nil_append]

theorem boolean_yields : Yields (boolean r items) (Reduces r items) := by
  rw [boolean]
  split
  · split
    case isTrue hclass =>
      apply Yields.bind (booleanOperands_yields items)
      intro values hvalues
      split
      case isTrue => exact .error trivial
      case isFalse hseveral =>
        rw [r.build_of_slots rfl]
        exact .ok (.built (.boolOp hvalues hclass (Nat.not_lt.mp hseveral)))
    case isFalse => exact .error trivial
  · exact .error trivial

theorem operatorAndOperand_yields (rule : Rule) (items : List Reduced) :
    Yields (operatorAndOperand rule items) fun found => rootsOf items = [found.2] := by
  rw [operatorAndOperand_eq]
  split
  · rename_i hhead
    apply Yields.bind (expectNode_yields _ _)
    intro operand hoperand
    apply Yields.bind (noMore_yields _)
    intro _ hrest
    have hfirst := rootsOf_of_head? hhead
    exact .ok (rootsOf_first hfirst (rootsOf_drop hoperand (rootsOf_end hrest)))
  · rename_i hhead
    split
    case isTrue =>
      apply Yields.bind (noMore_yields _)
      intro _ hrest
      exact .ok (rootsOf_first (rootsOf_of_head? hhead) (rootsOf_end hrest))
    case isFalse => exact .error trivial
  · exact .error trivial

theorem unary_yields : Yields (unary r items) (Reduces r items) := by
  rw [unary_eq]
  apply Yields.bind (operatorAndOperand_yields _ _)
  intro (op, operand) hoperand
  dsimp only
  split
  case isTrue hclass =>
    rw [r.build_of_slots rfl]
    exact .ok (.built (.unaryOp hoperand hclass))
  case isFalse => exact .error trivial

end TreeLowering.Lowering
