/-
# Comparison chains

The parts behind the first operand of a comparison are told apart by what they are. So only
the order of the operators and the order of the operands count, and not how the two are
interleaved. A chain is accepted when it has as many operators as further operands, and where
they alternate each operator belongs to the operand behind it.
-/

import TreeLowering.Proofs.Reduction.Places
import TreeLowering.Proofs.Reduction.Transform

namespace TreeLowering

open TreeLowering.Lowering TreeLowering.Reduced

variable {r : Reduction} {items rest rest' : List Reduced} {ops : List Operator}
  {operands : List Node}

/-! ## Terms -/

namespace Reduced

/-- The node that a part is. -/
def node? : Reduced → Option Node
  | .node n => some n
  | _ => none

/-- Whether a part is an operator or a node. -/
def isTerm : Reduced → Bool
  | .operator _ | .node _ => true
  | _ => false

/-- Whether a part may stand behind the first operand of a comparison. -/
def isCompared : Reduced → Bool
  | .operator op => op.operatorClass = .comparison
  | .node _ => true
  | _ => false

end Reduced

namespace Lowering

/-- What is told apart behind the first operand: all operators and all nodes, where there is
nothing else. -/
theorem splitChain_eq_ok_iff : splitChain items = .ok (ops, operands) ↔
    (∀ item ∈ items, item.isCompared) ∧ items.filterMap operator? = ops ∧
      items.filterMap node? = operands := by
  induction items generalizing ops operands with
  | nil => simp [splitChain]
  | cons item rest ih =>
      cases item with
      | node n =>
          simp only [splitChain, bind_eq_ok_iff, Prod.exists, ih, Except.ok.injEq, Prod.mk.injEq]
          simp only [List.forall_mem_cons, List.filterMap_cons, operator?, node?, isCompared,
            true_and]
          constructor
          · rintro ⟨_, _, ⟨hrest, rfl, rfl⟩, rfl, rfl⟩
            exact ⟨hrest, rfl, rfl⟩
          · rintro ⟨hrest, rfl, rfl⟩
            exact ⟨_, _, ⟨hrest, rfl, rfl⟩, rfl, rfl⟩
      | operator op =>
          rw [splitChain]
          split
          case isTrue hclass =>
            simp only [bind_eq_ok_iff, Prod.exists, ih, Except.ok.injEq, Prod.mk.injEq]
            simp only [List.forall_mem_cons, List.filterMap_cons, operator?, node?, isCompared,
              hclass, decide_true, true_and]
            constructor
            · rintro ⟨_, _, ⟨hrest, rfl, rfl⟩, rfl, rfl⟩
              exact ⟨hrest, rfl, rfl⟩
            · rintro ⟨hrest, rfl, rfl⟩
              exact ⟨_, _, ⟨hrest, rfl, rfl⟩, rfl, rfl⟩
          case isFalse hclass =>
            simp [isCompared, hclass]
      | _ => simp [splitChain, isCompared]

/-- What is told apart in a run of the given operators and nodes: the first operator of another
class is refused. -/
def toldApart (ops : List Operator) (operands : List Node) :
    Except Error (List Operator × List Node) :=
  match ops.find? fun op => op.operatorClass ≠ .comparison with
  | some stray => .error (.unrecognized "comparison operator" stray.tag)
  | none => .ok (ops, operands)

theorem toldApart_operand (ops : List Operator) (n : Node) (operands : List Node) :
    (toldApart ops operands >>= fun found => .ok (found.1, n :: found.2)) =
      toldApart ops (n :: operands) := by
  rw [toldApart, toldApart]
  cases ops.find? fun op => op.operatorClass ≠ .comparison <;> rfl

theorem toldApart_operator {op : Operator} (h : op.operatorClass = .comparison)
    (ops : List Operator) (operands : List Node) :
    (toldApart ops operands >>= fun found => .ok (op :: found.1, found.2)) =
      toldApart (op :: ops) operands := by
  rw [toldApart, toldApart, List.find?_cons_of_neg (by simpa using h)]
  cases ops.find? fun op => op.operatorClass ≠ .comparison <;> rfl

/-- In a run of operators and nodes it does not matter where the nodes stand. -/
theorem splitChain_eq_of_isTerm (h : ∀ item ∈ items, item.isTerm) :
    splitChain items = toldApart (items.filterMap operator?) (items.filterMap node?) := by
  induction items with
  | nil => rfl
  | cons item rest ih =>
      obtain ⟨hitem, hrest⟩ := List.forall_mem_cons.mp h
      cases item with
      | node n =>
          rw [splitChain, ih hrest]
          exact toldApart_operand _ n _
      | operator op =>
          rw [splitChain, ih hrest]
          split
          case isTrue hclass => exact toldApart_operator hclass _ _
          case isFalse hclass =>
            show _ = toldApart (op :: rest.filterMap operator?) (rest.filterMap node?)
            rw [toldApart, List.find?_cons_of_pos (by simpa using hclass)]
      | _ => cases hitem

/-- Operators and nodes are told apart in the same way however they are interleaved. -/
theorem splitChain_eq_of_interleaved (h : ∀ item ∈ rest, item.isTerm)
    (h' : ∀ item ∈ rest', item.isTerm)
    (hops : rest.filterMap operator? = rest'.filterMap operator?)
    (hoperands : rest.filterMap node? = rest'.filterMap node?) :
    splitChain rest = splitChain rest' := by
  rw [splitChain_eq_of_isTerm h, splitChain_eq_of_isTerm h', hops, hoperands]

end Lowering

/-! ## The comparison -/

/-- The comparison of an operand with others. -/
def compareNode (left : Node) (ops : List Operator) (comparators : List Node)
    (position : Position) : Node :=
  .mk .compare [("left", .node left), ("ops", .scalar (.operators ops)),
    ("comparators", .list comparators)] position

/-- The parts that alternate behind the first operand: each operator and the operand that it
belongs to. -/
def alternating (links : List (Operator × Node)) : List Reduced :=
  links.flatMap fun link => [.operator link.1, .node link.2]

theorem filterMap_operator?_alternating (links : List (Operator × Node)) :
    (alternating links).filterMap operator? = links.map Prod.fst := by
  induction links with
  | nil => rfl
  | cons link others ih => exact congrArg (link.1 :: ·) ih

theorem filterMap_node?_alternating (links : List (Operator × Node)) :
    (alternating links).filterMap node? = links.map Prod.snd := by
  induction links with
  | nil => rfl
  | cons link others ih => exact congrArg (link.2 :: ·) ih

theorem comparison_eq_ok_iff {result : Reduced} : comparison r items = .ok result ↔
    ∃ left rest, items = .node left :: rest ∧ (∀ item ∈ rest, item.isCompared) ∧
      rest.filterMap operator? ≠ [] ∧
      (rest.filterMap operator?).length = (rest.filterMap node?).length ∧
      result = .node (compareNode left (rest.filterMap operator?) (rest.filterMap node?)
        r.position) := by
  have hbuild (left : Node) (ops : List Operator) (comparators : List Node) :
      r.build .compare [("left", .node left), ("ops", .scalar (.operators ops)),
        ("comparators", .list comparators)] =
        .ok (.node (compareNode left ops comparators r.position)) := r.build_of_slots rfl
  cases items with
  | nil => simp [comparison_eq, expectNode, bind_eq_ok_iff]
  | cons first rest =>
      cases first with
      | node left =>
          rw [comparison_eq]
          simp only [List.getElem?_cons_zero, List.drop_succ_cons, List.drop_zero, expectNode,
            bind_eq_ok_iff, Prod.exists, splitChain_eq_ok_iff]
          constructor
          · rintro ⟨_, ⟨⟩, _, _, ⟨hcompared, rfl, rfl⟩, hresult⟩
            split at hresult
            case isTrue => cases hresult
            case isFalse hcounts =>
              simp only [Bool.or_eq_true, not_or] at hcounts
              rw [hbuild] at hresult
              exact ⟨left, rest, rfl, hcompared, by simpa using hcounts.1,
                by simpa using hcounts.2, (Except.ok.inj hresult).symm⟩
          · rintro ⟨_, _, ⟨⟩, hcompared, hsome, hequal, rfl⟩
            refine ⟨left, rfl, _, _, ⟨hcompared, rfl, rfl⟩, ?_⟩
            rw [if_neg (by simp [hsome, hequal])]
            exact hbuild ..
      | _ => simp [comparison_eq, expectNode, bind_eq_ok_iff]

/-- A comparison is accepted exactly if its first part is a node, every other part is a node or
a comparison operator, and there are as many operators as further nodes and at least one. It
becomes one node with all operators and all further nodes, each in source order. So parts that
interleave the same operators and operands in two ways have the same outcome, and from a chain
in which they alternate the pairs can be read back. -/
theorem apply_comparison_eq_ok_iff (options : Options) (position : Position) :
    (∀ items result, apply options .comparison position items = .ok result ↔
      ∃ left rest, items = .node left :: rest ∧ (∀ item ∈ rest, item.isCompared) ∧
        rest.filterMap operator? ≠ [] ∧
        (rest.filterMap operator?).length = (rest.filterMap node?).length ∧
        result = .node (compareNode left (rest.filterMap operator?) (rest.filterMap node?)
          position)) ∧
    (∀ first rest rest', (∀ item ∈ rest, item.isTerm) → (∀ item ∈ rest', item.isTerm) →
      rest.filterMap operator? = rest'.filterMap operator? →
      rest.filterMap node? = rest'.filterMap node? →
      apply options .comparison position (first :: rest) =
        apply options .comparison position (first :: rest')) ∧
    ∀ (left : Node) (links : List (Operator × Node)), links ≠ [] →
      (∀ link ∈ links, link.1.operatorClass = .comparison) →
      ∃ ops comparators, apply options .comparison position (.node left :: alternating links) =
          .ok (.node (compareNode left ops comparators position)) ∧
        ops.zip comparators = links := by
  have hiff (items : List Reduced) (result : Reduced) :
      apply options .comparison position items = .ok result ↔ _ :=
    apply_eq_ok_iff.trans comparison_eq_ok_iff
  refine ⟨hiff, fun first rest rest' h h' hops hoperands => ?_, fun left links hsome hclass => ?_⟩
  · have hsame : comparison ⟨.comparison, position, options⟩ (first :: rest) =
        comparison ⟨.comparison, position, options⟩ (first :: rest') := by
      rw [comparison_eq, comparison_eq]
      simp only [List.drop_succ_cons, List.drop_zero,
        splitChain_eq_of_interleaved h h' hops hoperands]
      rfl
    exact congrArg (Except.mapError _) hsame
  · refine ⟨links.map Prod.fst, links.map Prod.snd, (hiff _ _).mpr ⟨left, _, rfl, ?_, ?_, ?_, ?_⟩,
      (List.zip_of_prod rfl rfl).symm⟩
    · intro item hitem
      obtain ⟨link, hlink, hmem⟩ := List.mem_flatMap.mp hitem
      rcases List.mem_pair.mp hmem with rfl | rfl
      · simp [isCompared, hclass link hlink]
      · rfl
    · simpa [filterMap_operator?_alternating] using hsome
    · simp [filterMap_operator?_alternating, filterMap_node?_alternating]
    · rw [filterMap_operator?_alternating, filterMap_node?_alternating]

/-- A number as an operand. -/
def numeralOperand (value : Int) : Node :=
  .mk .constant [("value", .int value)] .unknown

/-- The operators of `1 < 2 not in 3`, each with the operand behind it. -/
def mixedLinks : List (Operator × Node) :=
  [(.less, numeralOperand 2), (.notMember, numeralOperand 3)]

/-- The same operators and operands with both operators in front. -/
def operatorsFirst : List Reduced :=
  [.operator .less, .operator .notMember, .node (numeralOperand 2), .node (numeralOperand 3)]

/-- With both operators in front, the chain `1 < 2 not in 3` still pairs each of them with its
own operand. -/
theorem apply_comparison_eq_ok_iff_operatorsFirst :
    (∀ item ∈ operatorsFirst, item.isTerm) ∧ (∀ item ∈ alternating mixedLinks, item.isTerm) ∧
    operatorsFirst.filterMap operator? = (alternating mixedLinks).filterMap operator? ∧
    operatorsFirst.filterMap node? = (alternating mixedLinks).filterMap node? ∧
    mixedLinks ≠ [] ∧ (∀ link ∈ mixedLinks, link.1.operatorClass = .comparison) ∧
    ∃ ops comparators,
      apply .default .comparison .unknown (.node (numeralOperand 1) :: operatorsFirst) =
        .ok (.node (compareNode (numeralOperand 1) ops comparators .unknown)) ∧
      ops.zip comparators = mixedLinks := by
  have hfirst : ∀ item ∈ operatorsFirst, item.isTerm := by decide
  have halternating : ∀ item ∈ alternating mixedLinks, item.isTerm := by decide
  have hsome : mixedLinks ≠ [] := by decide
  have hclass : ∀ link ∈ mixedLinks, link.1.operatorClass = .comparison := by decide
  obtain ⟨-, hinterleaved, hchain⟩ := apply_comparison_eq_ok_iff .default .unknown
  obtain ⟨ops, comparators, hok, hzip⟩ := hchain (numeralOperand 1) mixedLinks hsome hclass
  refine ⟨hfirst, halternating, rfl, rfl, hsome, hclass, ops, comparators, ?_, hzip⟩
  rw [hinterleaved _ _ _ hfirst halternating rfl rfl, hok]

end TreeLowering
