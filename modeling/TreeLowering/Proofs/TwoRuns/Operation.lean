/-
# Like operations and displays

The handlers of operators, displays and comprehensions answer like parts alike. Operators
are the same in both runs, so only the operands are related.
-/

import TreeLowering.Lowering.Comprehension
import TreeLowering.Lowering.Display
import TreeLowering.Lowering.Operation
import TreeLowering.Proofs.Reduction.Display
import TreeLowering.Proofs.Reduction.Places
import TreeLowering.Proofs.TwoRuns.Parts

namespace TreeLowering.Likeness

open TreeLowering.Lowering TreeLowering.Reduced

variable {L : Likeness} {raw classes : Prop} {r s : Reduction}
variable {items others : List Reduced} {item other : Reduced}

/-! ## Operators -/

theorem tokenWords_like (h : L.Parts raw classes item other) :
    L.Outcomes Eq (tokenWords item) (tokenWords other) := by
  have hother := unexpected_like "operator token" (.some h)
  cases h with
  | token text =>
      rw [tokenWords, tokenWords, text]
      exact .ok rfl
  | _ => exact .error hother

theorem lexeme_like (hparts : L.PartLists raw classes items others) :
    L.Outcomes Eq (lexeme items) (lexeme others) := by
  have hwords : L.Outcomes Eq (items.mapM tokenWords) (others.mapM tokenWords) :=
    Outcomes.mapM_eq (fun _ _ like => tokenWords_like like) hparts
  rw [lexeme, lexeme]
  apply hwords.bind
  rintro words _ rfl
  dsimp only
  split
  · exact .error (.same _)
  · exact .ok rfl

theorem operator_like (h : L.Events r s) (hparts : L.PartLists raw classes items others) :
    L.Outcomes L.Answers (Lowering.operator r items) (Lowering.operator s others) := by
  rw [Lowering.operator, Lowering.operator, h.rule]
  apply (lexeme_like hparts).bind
  rintro text _ rfl
  split
  · exact .ok (.operator _)
  · exact .error (.same _)
  · exact .error (.same _)

/-! ## Applications -/

/-- Operands of chains are related, operators and their places are the same. -/
theorem splitChain_like (hparts : L.PartLists raw classes items others) :
    L.Outcomes (fun a b => a.1 = b.1 ∧ L.NodeLists a.2 b.2) (splitChain items)
      (splitChain others) := by
  induction hparts with
  | nil => exact .ok ⟨rfl, .nil⟩
  | cons hitem hrest ih =>
      have hother := unexpected_like "comparison operand" (.some hitem)
      cases hitem with
      | operator op =>
          rw [splitChain, splitChain]
          split
          · apply ih.bind
            rintro ⟨ops, operands⟩ ⟨_, operands'⟩ ⟨rfl, hoperands⟩
            exact .ok ⟨rfl, hoperands⟩
          · exact .error (.same _)
      | node like =>
          rw [splitChain, splitChain]
          apply ih.bind
          rintro ⟨ops, operands⟩ ⟨_, operands'⟩ ⟨rfl, hoperands⟩
          exact .ok ⟨rfl, .cons like hoperands⟩
      | _ => exact .error hother

theorem comparison_like (h : L.Events r s) (hparts : L.PartLists raw classes items others) :
    L.Outcomes L.Answers (comparison r items) (comparison s others) := by
  rw [comparison_eq, comparison_eq]
  apply (expectNode_like _ (rel_getElem? hparts 0)).bind
  intro _ _ hleft
  apply (splitChain_like (List.forall₂_drop 1 hparts)).bind
  rintro ⟨ops, comparators⟩ ⟨_, comparators'⟩ ⟨rfl, hcomparators⟩
  dsimp only
  rw [hcomparators.length_eq]
  split
  · exact .error (.same _)
  · exact reduction_build_like h nofun
      (.cons _ (.node hleft) (.cons _ (.scalar _) (.cons _ (.list hcomparators) .nil)))

/-- The operator of a binary step is the same, its right operand is like. -/
theorem operatorAndRight_like (rule : Rule) (hparts : L.PartLists raw classes items others) :
    L.Outcomes (fun a b => a.1 = b.1 ∧ L.Nodes a.2 b.2) (operatorAndRight rule items)
      (operatorAndRight rule others) := by
  rw [operatorAndRight_eq, operatorAndRight_eq]
  cases hparts with
  | nil => exact .error (.same _)
  | cons hitem hrest =>
      have hother := unexpected_like "binary operator" (.some hitem)
      cases hitem with
      | operator op =>
          apply (expectNode_like _ (rel_getElem? hrest 0)).bind
          intro _ _ hright
          apply (noMore_like (List.forall₂_drop 1 hrest)).bind
          intro _ _ _
          exact .ok ⟨rfl, hright⟩
      | node like =>
          cases impliedOperator? rule with
          | some op =>
              apply (noMore_like hrest).bind
              intro _ _ _
              exact .ok ⟨rfl, like⟩
          | none => exact .error hother
      | _ => exact .error hother

theorem binary_like (h : L.Events r s) (hparts : L.PartLists raw classes items others) :
    L.Outcomes L.Answers (binary r items) (binary s others) := by
  rw [binary_eq, binary_eq, h.rule]
  apply (expectNode_like _ (rel_getElem? hparts 0)).bind
  intro _ _ hleft
  apply (operatorAndRight_like _ (List.forall₂_drop 1 hparts)).bind
  rintro ⟨op, right⟩ ⟨_, right'⟩ ⟨rfl, hright⟩
  dsimp only
  split
  · exact reduction_build_like h nofun
      (.cons _ (.node hleft) (.cons _ (.scalar _) (.cons _ (.node hright) .nil)))
  · exact .error (.same _)

theorem booleanOperands_like (hparts : L.PartLists raw classes items others) :
    L.Outcomes L.NodeLists (booleanOperands items) (booleanOperands others) := by
  have hoperands := forall₂_filter hparts
    (p := fun item => item.operator?.isNone && !item.isFiller)
    (q := fun item => item.operator?.isNone && !item.isFiller)
    fun _ _ like => by rw [like.operator?_eq, like.isFiller_eq]
  rw [booleanOperands, booleanOperands]
  exact Outcomes.mapM (fun _ _ like => expectNode_like _ (.some like)) hoperands

theorem operators_eq (hparts : L.PartLists raw classes items others) :
    items.filterMap operator? = others.filterMap operator? := by
  induction hparts with
  | nil => rfl
  | cons hitem _ ih => rw [List.filterMap_cons, List.filterMap_cons, hitem.operator?_eq, ih]

theorem boolean_like (h : L.Events r s) (hparts : L.PartLists raw classes items others) :
    L.Outcomes L.Answers (boolean r items) (boolean s others) := by
  rw [boolean.eq_def, boolean.eq_def, operators_eq hparts]
  split
  · split
    · apply (booleanOperands_like hparts).bind
      intro _ _ hvalues
      rw [hvalues.length_eq]
      split
      · exact .error (.same _)
      · exact reduction_build_like h nofun
          (.cons _ (.scalar _) (.cons _ (.list hvalues) .nil))
    · exact .error (.same _)
  · exact .error (.same _)

/-- The operator of a unary application is the same, its operand is like. -/
theorem operatorAndOperand_like (rule : Rule) (hparts : L.PartLists raw classes items others) :
    L.Outcomes (fun a b => a.1 = b.1 ∧ L.Nodes a.2 b.2) (operatorAndOperand rule items)
      (operatorAndOperand rule others) := by
  rw [operatorAndOperand_eq, operatorAndOperand_eq]
  cases hparts with
  | nil => exact .error (.same _)
  | cons hitem hrest =>
      have hother := unexpected_like "unary operator" (.some hitem)
      cases hitem with
      | operator op =>
          apply (expectNode_like _ (rel_getElem? hrest 0)).bind
          intro _ _ hoperand
          apply (noMore_like (List.forall₂_drop 1 hrest)).bind
          intro _ _ _
          exact .ok ⟨rfl, hoperand⟩
      | node like =>
          dsimp only [List.head?_cons]
          split
          · apply (noMore_like hrest).bind
            intro _ _ _
            exact .ok ⟨rfl, like⟩
          · exact .error hother
      | _ => exact .error hother

theorem unary_like (h : L.Events r s) (hparts : L.PartLists raw classes items others) :
    L.Outcomes L.Answers (unary r items) (unary s others) := by
  rw [unary_eq, unary_eq, h.rule]
  apply (operatorAndOperand_like _ hparts).bind
  rintro ⟨op, operand⟩ ⟨_, operand'⟩ ⟨rfl, hoperand⟩
  dsimp only
  split
  · exact reduction_build_like h nofun (.cons _ (.scalar _) (.cons _ (.node hoperand) .nil))
  · exact .error (.same _)

/-! ## Displays -/

theorem sequence_like (h : L.Events r s) (hparts : L.PartLists raw classes items others) :
    L.Outcomes L.Answers (sequence r items) (sequence s others) := by
  rw [Lowering.sequence, Lowering.sequence, h.rule]
  apply (gather_like items hparts).bind
  intro _ _ helements
  split
  · exact reduction_build_like h (by decide)
      (.cons _ (.list helements) (.cons _ (.scalar _) .nil))
  · exact (tuple_like h helements).map fun _ _ => .node
  · exact reduction_build_like h (by decide) (.cons _ (.list helements) .nil)
  · exact .error (.same _)

/-- Entries with like keys and like values. -/
def Entries (L : Likeness) (a b : Entry) : Prop :=
  Option.Rel L.Nodes a.1 b.1 ∧ L.Nodes a.2 b.2

mutual

theorem entriesOf_like : ∀ (item : Reduced) {other : Reduced}, L.Parts raw classes item other →
    L.Outcomes (List.Forall₂ L.Entries) (entriesOf item) (entriesOf other)
  | .pair _ _, _, .pair key value => .ok (.cons ⟨.some key, value⟩ .nil)
  | .unpack _, _, .unpack like => .ok (.cons ⟨.none, like⟩ .nil)
  | .fragment _ children _, _, .fragment _ like _ _ => by
      rw [entriesOf, entriesOf]
      exact entries_like children like
  | .token _, _, .token .. => .ok .nil
  | .absent, _, .absent _ => .ok .nil
  | .node _, _, .node like => .error (unexpected_node_like _ like)
  | .nodes _, _, h => by
      have hother := unexpected_like "dict entry" (.some h)
      cases h
      exact .error hother
  | .operator _, _, .operator _ => .error (.same _)
  | .dotted _, _, .dotted _ => .error (.same _)
  | .level _, _, .level _ => .error (.same _)
  | .clause _, _, h => by cases h <;> exact .error (.same _)
  | .parameter _, _, h => by cases h <;> exact .error (.same _)

theorem entries_like : ∀ (items : List Reduced) {others : List Reduced},
    L.PartLists raw classes items others →
      L.Outcomes (List.Forall₂ L.Entries) (entries items) (entries others)
  | [], _, .nil => .ok .nil
  | item :: rest, _, .cons hitem hrest => by
      rw [entries_cons, entries_cons]
      apply (entriesOf_like item hitem).bind
      intro _ _ hfirst
      apply (entries_like rest hrest).bind
      intro _ _ hothers
      exact .ok (List.rel_append hfirst hothers)

end

theorem dict_like (h : L.Events r s) (hparts : L.PartLists raw classes items others) :
    L.Outcomes L.Answers (dict r items) (dict s others) := by
  rw [dict, dict]
  apply (entries_like items hparts).bind
  intro found found' hfound
  have hkeys : List.Forall₂ (Option.Rel L.Nodes) (found.map (·.1)) (found'.map (·.1)) :=
    List.rel_map (fun _ _ like => like.1) hfound
  have hvalues : L.NodeLists (found.map (·.2)) (found'.map (·.2)) :=
    List.rel_map (fun _ _ like => like.2) hfound
  exact reduction_build_like h (by decide)
    (.cons _ (.sparse hkeys) (.cons _ (.list hvalues) .nil))

theorem keyValue_like (hparts : L.PartLists raw classes items others) :
    L.Outcomes L.Answers (keyValue r items) (keyValue s others) := by
  rw [keyValue_eq, keyValue_eq]
  apply (expectNode_like _ (rel_getElem? hparts 0)).bind
  intro _ _ hkey
  apply (expectNode_like _ (rel_getElem? hparts 1)).bind
  intro _ _ hvalue
  apply (noMore_like (List.forall₂_drop 2 hparts)).bind
  intro _ _ _
  exact .ok (.pair hkey hvalue)

theorem dictUnpack_like (hparts : L.PartLists raw classes items others) :
    L.Outcomes L.Answers (dictUnpack r items) (dictUnpack s others) := by
  rw [dictUnpack_eq, dictUnpack_eq]
  apply (expectNode_like _ (rel_getElem? hparts 0)).bind
  intro _ _ hmapping
  apply (noMore_like (List.forall₂_drop 1 hparts)).bind
  intro _ _ _
  exact .ok (.unpack hmapping)

/-! ## Comprehensions -/

theorem any_isComprehension_eq {d e : Option Node} (h : Option.Rel L.Nodes d e) :
    d.any isComprehension = e.any isComprehension := by
  cases h with
  | none => rfl
  | some like =>
      rw [Option.any_some, Option.any_some, isComprehension, isComprehension, like.construct_eq]

theorem comprehensionClause_like (h : L.Events r s)
    (hparts : L.PartLists raw classes items others) :
    L.Outcomes L.Answers (comprehensionClause r items) (comprehensionClause s others) := by
  rw [comprehensionClause_eq, comprehensionClause_eq, h.rule]
  apply (expectNode_like _ (rel_getElem? hparts 0)).bind
  intro _ _ hbinding
  apply (bind_like .write hbinding).bind
  intro _ _ htarget
  apply (expectNode_like _ (rel_getElem? hparts 1)).bind
  intro _ _ hiterable
  apply (optionalNode_like _ (rel_getElem? hparts 2)).bind
  intro _ _ hcondition
  apply (noMore_like (List.forall₂_drop 3 hparts)).bind
  intro _ _ _
  rw [any_isComprehension_eq hcondition]
  split
  · exact .error (.same _)
  · exact reduction_build_like h (by decide) (.cons _ (.node htarget) (.cons _ (.node hiterable)
      (.cons _ (.list (forall₂_toList hcondition)) (.cons _ (.scalar _) .nil))))

theorem clauses_like (hparts : L.PartLists raw classes items others) :
    L.Outcomes L.NodeLists (clauses items) (clauses others) := by
  rw [clauses, clauses]
  apply (gather_like items hparts).bind
  intro _ _ hnodes
  exact allOf_like _ _ hnodes

theorem comprehension_like (h : L.Events r s) (hparts : L.PartLists raw classes items others) :
    L.Outcomes L.Answers (comprehension r items) (comprehension s others) := by
  rw [comprehension_eq, comprehension_eq, h.rule]
  split
  · rename_i construct hconstruct
    have kind : construct ≠ .constant := by
      rintro rfl
      cases hrule : r.rule <;> rw [hrule] at hconstruct <;> cases hconstruct
    apply (expectNode_like _ (rel_getElem? hparts 0)).bind
    intro _ _ helement
    apply (clauses_like (List.forall₂_drop 1 hparts)).bind
    intro _ _ hgenerators
    exact reduction_build_like h kind
      (.cons _ (.node helement) (.cons _ (.list hgenerators) .nil))
  · exact .error (.same _)

theorem dictComprehensionOf_like (h : L.Events r s) {k l v w : Node} (hkey : L.Nodes k l)
    (hvalue : L.Nodes v w) (hparts : L.PartLists raw classes items others) :
    L.Outcomes L.Answers (dictComprehensionOf r k v items)
      (dictComprehensionOf s l w others) := by
  rw [dictComprehensionOf, dictComprehensionOf]
  apply (clauses_like hparts).bind
  intro _ _ hgenerators
  exact reduction_build_like h (by decide)
    (.cons _ (.node hkey) (.cons _ (.node hvalue) (.cons _ (.list hgenerators) .nil)))

theorem dictComprehension_like (h : L.Events r s) (hparts : L.PartLists raw classes items others) :
    L.Outcomes L.Answers (dictComprehension r items) (dictComprehension s others) := by
  rw [dictComprehension_eq, dictComprehension_eq]
  cases hparts with
  | nil => exact .error (.same _)
  | cons hitem hrest =>
      have hother := unexpected_like "comprehension entry" (.some hitem)
      cases hitem with
      | pair key value => exact dictComprehensionOf_like h key value hrest
      | node like =>
          apply (expectNode_like _ (rel_getElem? hrest 0)).bind
          intro _ _ hvalue
          exact dictComprehensionOf_like h like hvalue (List.forall₂_drop 1 hrest)
      | _ => exact .error hother

end TreeLowering.Likeness
