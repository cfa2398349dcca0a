/-
# Operator families

Which operators an application can be made with. A rule that looks an operator up only
knows the spellings of its own family; the rule that applies it checks the class of what
it is given. So an application stays in its family as long as its operator was looked up
by the operator rule that belongs to it, or is implied by the rule, and it is always of
the right class.
-/

import TreeLowering.Proofs.Reduction.Places
import TreeLowering.Proofs.Reduction.Transform

namespace TreeLowering

open TreeLowering.Lowering TreeLowering.Reduced

/-! ## Families -/

namespace Rule

/-- The construct that the application of an operator builds, and the class of operators
that it takes. -/
def application? : Rule → Option (Construct × OperatorClass)
  | .arithExpr | .termExpr | .shiftExpr | .andExpr | .xorExpr | .orExpr | .powerExpr =>
    some (.binOp, .binary)
  | .orTest | .andTest => some (.boolOp, .boolean)
  | .notTest | .factorExpr => some (.unaryOp, .unary)
  | _ => none

/-- The operators of an application at one level of precedence. -/
def family : Rule → List Operator
  | .arithExpr => [.add, .sub]
  | .termExpr => [.mult, .matMult, .div, .floorDiv, .mod]
  | .shiftExpr => [.leftShift, .rightShift]
  | .andExpr => [.bitAnd]
  | .xorExpr => [.bitXor]
  | .orExpr => [.bitOr]
  | .powerExpr => [.pow]
  | .orTest => [.or]
  | .andTest => [.and]
  | .notTest => [.not]
  | .factorExpr => [.plus, .minus, .invert]
  | _ => []

/-- The rule that looks up the operators of an application, if the grammar keeps them. -/
def operatorRule? : Rule → Option Rule
  | .arithExpr => some .addOp
  | .termExpr => some .mulOp
  | .shiftExpr => some .shiftOp
  | .orTest => some .orOp
  | .andTest => some .andOp
  | .notTest => some .notOp
  | .factorExpr => some .unaryOp
  | _ => none

end Rule

/-- The rule of a branch. -/
def ParseTree.rule? : ParseTree → Option Rule
  | .rule name _ _ => Rule.ofName? name
  | _ => none

/-- The operator that a tree reduces to. -/
def ParseTree.operator? (options : Options) (tree : ParseTree) : Option Operator :=
  match reduce options tree with
  | .ok item => item.operator?
  | .error _ => none

variable {options : Options} {rule own : Rule} {op : Operator} {children : List ParseTree}
  {items : List Reduced} {position : Position} {r : Reduction}

/-- What a rule implies is of its family. -/
theorem mem_family_of_impliedOperator? (h : impliedOperator? rule = some op) :
    op ∈ rule.family := by
  cases rule <;> cases h <;> exact List.mem_singleton_self _

theorem mem_of_among {operators : List Operator} {found : Option Operator}
    (h : among operators found = some op) : op ∈ operators := by
  rw [among, Option.filter_eq_some_iff] at h
  simpa using h.2

/-! ## Lookup -/

/-- A lookup only finds operators that its text spells in its family. -/
theorem operator_spelled_yields :
    Yields (Lowering.operator r items) fun result =>
      ∃ op text, result = .operator op ∧ spelled? text r.rule = some (some op) := by
  rw [Lowering.operator]
  apply Yields.bind (lexeme_yields items)
  intro text _
  split
  · rename_i op hspelled
    exact .ok ⟨op, text, rfl, hspelled⟩
  · exact .error trivial
  · exact .error trivial

theorem mem_family_of_spelled? {text : String} (hown : rule.operatorRule? = some own)
    (h : spelled? text own = some (some op)) : op ∈ rule.family := by
  cases rule <;> cases hown <;> exact mem_of_among (Option.some.inj h)

theorem handlerOf_operatorRule (hown : rule.operatorRule? = some own) :
    handlerOf own = Lowering.operator := by
  cases rule <;> cases hown <;> rfl

/-- What the operator rule of an application hands on is of the family of the application. -/
theorem mem_family_of_apply (hown : rule.operatorRule? = some own)
    (h : apply options own position items = .ok (.operator op)) : op ∈ rule.family := by
  have hfound := handlerOf_eq_ok h
  rw [handlerOf_operatorRule hown] at hfound
  obtain ⟨_, text, ⟨rfl⟩, hspelled⟩ := operator_spelled_yields.of_ok hfound
  exact mem_family_of_spelled? hown hspelled

/-- An operator that was looked up by the rule belonging to an application is of the family
of the application. -/
theorem mem_family_of_operator? {tree : ParseTree} (hrule : tree.rule? = rule.operatorRule?)
    (h : tree.operator? options = some op) : op ∈ rule.family := by
  cases tree with
  | absent => cases h
  | token t => cases h
  | rule name children position =>
      rw [ParseTree.operator?] at h
      split at h
      case h_2 => cases h
      case h_1 item hreduced =>
        obtain ⟨items, _, ⟨own, hname, hok⟩ | ⟨_, rfl⟩⟩ := reduce_rule_eq_ok hreduced
        · obtain rfl : item = .operator op := by cases item <;> cases h; rfl
          exact mem_family_of_apply (hrule.symm.trans hname) hok
        · cases h

/-! ## Applications -/

/-- What an application hands on, and where its operator comes from: it is the only one
among the parts, or there is none and the rule knows which one is meant. -/
structure Applies (r : Reduction) (items : List Reduced) (construct : Construct)
    (kind : OperatorClass) (n : Node) (op : Operator) : Prop where
  construct_eq : n.construct = construct
  position_eq : n.position = r.position
  get?_op : n.get? "op" = some (.operator op)
  class_eq : op.operatorClass = kind
  source : items.filterMap operator? = [op] ∨ items.filterMap operator? = [] ∧
    (impliedOperator? r.rule = some op ∨ r.rule = .notTest ∧ op = .not)

theorem eq_pair_of_drop_eq_nil {first second : Reduced} (hfirst : items.head? = some first)
    (hsecond : items[1]? = some second) (hrest : items.drop 2 = []) :
    items = [first, second] := by
  match items, hfirst with
  | [_], _ => cases hsecond
  | [_, _], rfl => simpa using hsecond
  | _ :: _ :: _ :: _, _ => cases hrest

theorem eq_singleton_of_drop_eq_nil {first : Reduced} (hfirst : items.head? = some first)
    (hrest : items.drop 1 = []) : items = [first] := by
  obtain ⟨rest, rfl⟩ := List.head?_eq_some_iff.mp hfirst
  rw [show rest = [] from hrest]

theorem operatorAndRight_shape (rule : Rule) (items : List Reduced) :
    Yields (operatorAndRight rule items) fun found =>
      items = [.operator found.1, .node found.2] ∨
        items = [.node found.2] ∧ impliedOperator? rule = some found.1 := by
  rw [operatorAndRight_eq]
  split
  · rename_i hhead
    apply Yields.bind (expectNode_present _ _)
    intro right hright
    apply Yields.bind (noMore_yields _)
    intro _ hrest
    exact .ok (.inl (eq_pair_of_drop_eq_nil hhead hright hrest))
  · rename_i hhead himplied
    apply Yields.bind (noMore_yields _)
    intro _ hrest
    exact .ok (.inr ⟨eq_singleton_of_drop_eq_nil hhead hrest, himplied⟩)
  · exact .error trivial

theorem operatorAndOperand_shape (rule : Rule) (items : List Reduced) :
    Yields (operatorAndOperand rule items) fun found =>
      items = [.operator found.1, .node found.2] ∨
        items = [.node found.2] ∧ rule = .notTest ∧ found.1 = .not := by
  rw [operatorAndOperand_eq]
  split
  · rename_i hhead
    apply Yields.bind (expectNode_present _ _)
    intro operand hoperand
    apply Yields.bind (noMore_yields _)
    intro _ hrest
    exact .ok (.inl (eq_pair_of_drop_eq_nil hhead hoperand hrest))
  · rename_i hhead
    split
    case isTrue hrule =>
      apply Yields.bind (noMore_yields _)
      intro _ hrest
      exact .ok (.inr ⟨eq_singleton_of_drop_eq_nil hhead hrest, hrule, rfl⟩)
    case isFalse => exact .error trivial
  · exact .error trivial

theorem binary_applies :
    Yields (binary r items) fun result =>
      ∃ n op, result = .node n ∧ Applies r items .binOp .binary n op := by
  rw [binary_eq]
  apply Yields.bind (expectNode_present _ _)
  intro left hleft
  apply Yields.bind (operatorAndRight_shape _ _)
  rintro ⟨op, right⟩ hshape
  have hitems : items = .node left :: items.drop 1 := by
    have hparts := drop_eq_toList_append items 0
    rwa [hleft] at hparts
  dsimp only
  split
  case isTrue hclass =>
    rw [r.build_of_slots rfl]
    refine .ok ⟨_, op, rfl, rfl, rfl, rfl, hclass, ?_⟩
    rw [hitems]
    rcases hshape with hpair | ⟨hsingle, himplied⟩
    · exact .inl (by rw [hpair]; rfl)
    · exact .inr ⟨by rw [hsingle]; rfl, .inl himplied⟩
  case isFalse => exact .error trivial

theorem boolean_applies :
    Yields (boolean r items) fun result =>
      ∃ n op, result = .node n ∧ Applies r items .boolOp .boolean n op := by
  rw [boolean]
  split
  · rename_i op hsingle
    split
    case isTrue hclass =>
      apply Yields.bind (booleanOperands_yields items)
      intro values _
      split
      case isTrue => exact .error trivial
      case isFalse =>
        rw [r.build_of_slots rfl]
        exact .ok ⟨_, op, rfl, rfl, rfl, rfl, hclass, .inl hsingle⟩
    case isFalse => exact .error trivial
  · exact .error trivial

theorem unary_applies :
    Yields (unary r items) fun result =>
      ∃ n op, result = .node n ∧ Applies r items .unaryOp .unary n op := by
  rw [unary_eq]
  apply Yields.bind (operatorAndOperand_shape _ _)
  rintro ⟨op, operand⟩ hshape
  dsimp only
  split
  case isTrue hclass =>
    rw [r.build_of_slots rfl]
    refine .ok ⟨_, op, rfl, rfl, rfl, rfl, hclass, ?_⟩
    rcases hshape with rfl | ⟨rfl, hnot⟩
    · exact .inl rfl
    · exact .inr ⟨rfl, .inr hnot⟩
  case isFalse => exact .error trivial

theorem handlerOf_applies {construct : Construct} {kind : OperatorClass}
    (happ : rule.application? = some (construct, kind)) :
    Yields (handlerOf rule ⟨rule, position, options⟩ items) fun result =>
      ∃ n op, result = .node n ∧ Applies ⟨rule, position, options⟩ items construct kind n op := by
  cases rule <;> cases happ
  case arithExpr | termExpr | shiftExpr | andExpr | xorExpr | orExpr | powerExpr =>
    exact binary_applies
  case orTest | andTest => exact boolean_applies
  case notTest | factorExpr => exact unary_applies

theorem filterMap_of_reducts (h : Reducts options children items) :
    children.filterMap (ParseTree.operator? options) = items.filterMap Reduced.operator? := by
  induction h with
  | nil => rfl
  | @cons child item _ _ hhead _ ih =>
      have hop : child.operator? options = item.operator? := by rw [ParseTree.operator?, hhead]
      rw [List.filterMap_cons, List.filterMap_cons, hop, ih]

/-- An application that reduces becomes a node of its construct at its own range. The
operator is of the class of the application, and it is the only one among the children or,
where there is none, implied by the rule; the rule of `not` is left out of this. It is of
the family of the rule as long as no child is an operator of another operator rule. -/
theorem family_of_application (options : Options) {name : String} {children : List ParseTree}
    {position : Position} {rule : Rule} {construct : Construct} {kind : OperatorClass}
    {result : Reduced} (hname : Rule.ofName? name = some rule)
    (happ : rule.application? = some (construct, kind))
    (h : reduce options (.rule name children position) = .ok result) :
    ∃ n op, result = .node n ∧ n.construct = construct ∧ n.position = position ∧
      n.get? "op" = some (.operator op) ∧ op.operatorClass = kind ∧
      (rule ≠ .notTest → children.filterMap (ParseTree.operator? options) = [op] ∨
        children.filterMap (ParseTree.operator? options) = [] ∧
          impliedOperator? rule = some op) ∧
      ((∀ child ∈ children, (child.operator? options).isSome →
          child.rule? = rule.operatorRule?) → op ∈ rule.family) := by
  obtain ⟨items, hitems, ⟨own, hown, hok⟩ | ⟨hnone, _⟩⟩ := reduce_rule_eq_ok h
  · obtain rfl : rule = own := Option.some.inj (hname.symm.trans hown)
    obtain ⟨n, op, rfl, happlies⟩ := (handlerOf_applies happ).of_ok (handlerOf_eq_ok hok)
    have hsource := happlies.source
    rw [← filterMap_of_reducts hitems] at hsource
    refine ⟨n, op, rfl, happlies.construct_eq, happlies.position_eq, happlies.get?_op,
      happlies.class_eq, fun hnot => ?_, fun hchildren => ?_⟩
    · exact hsource.imp_right fun ⟨hnone, himplied⟩ =>
        ⟨hnone, himplied.resolve_right fun h => hnot h.1⟩
    -- An operator among the parts comes from a child, whose rule has filtered its spelling.
    · rcases hsource with hgiven | ⟨_, himplied | ⟨rfl, rfl⟩⟩
      · obtain ⟨child, hchild, hop⟩ := List.mem_filterMap.mp (hgiven ▸ List.mem_singleton_self op)
        exact mem_family_of_operator? (hchildren child hchild (by simp [hop])) hop
      · exact mem_family_of_impliedOperator? himplied
      · exact List.mem_singleton_self _
  · cases hname.symm.trans hnone

/-- The sum of two constants, with the rule and the spelling of its operator. -/
def operatorTree (operatorRule symbol : String) : ParseTree :=
  .rule "arith_expr" [.rule "const_true" [] .unknown,
    .rule operatorRule [.token ⟨"OP", symbol, .unknown⟩] .unknown,
    .rule "const_false" [] .unknown] .unknown

/-- The tree of `True - False` reduces to a subtraction, whose operator is of the family of
its rule. -/
theorem family_of_application_sub :
    ∃ n op, reduce .default (operatorTree "add_op" "-") = .ok (.node n) ∧
      n.get? "op" = some (.operator op) ∧ op ∈ Rule.family .arithExpr := by
  obtain ⟨result, hok⟩ : ∃ result, reduce .default (operatorTree "add_op" "-") = .ok result :=
    ⟨_, rfl⟩
  have hname : Rule.ofName? "arith_expr" = some .arithExpr := by decide +kernel
  obtain ⟨n, op, rfl, _, _, hop, _, _, hfamily⟩ := family_of_application .default hname rfl hok
  exact ⟨n, op, hok, hop, hfamily (by decide +kernel)⟩

/-- A sum with an operator of products reduces, to a multiplication. -/
theorem mult_of_sum_application :
    ∃ n, reduce .default (operatorTree "mul_op" "*") = .ok (.node n) ∧
      n.get? "op" = some (.operator .mult) ∧ Operator.mult ∉ Rule.family .arithExpr :=
  ⟨_, rfl, rfl, by decide⟩

end TreeLowering
