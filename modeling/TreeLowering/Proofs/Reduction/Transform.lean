/-
# The reduction of a tree

Every rule has a handler whose law is known, so a step of the reduction does with the
nodes of its parts what the rules of a reduction say, or fails with a report that is
attributed to the rule. A property of nodes that every step keeps holds of the nodes of
every tree that reduces.
-/

import TreeLowering.Lowering.Transform
import TreeLowering.Proofs.Reduction.Block
import TreeLowering.Proofs.Reduction.Definition
import TreeLowering.Proofs.Reduction.Expression
import TreeLowering.Proofs.Reduction.Operation
import TreeLowering.Proofs.Reduction.Statement

namespace TreeLowering

open TreeLowering.Lowering TreeLowering.Reduced

variable {options : Options}

/-! ## Single steps -/

theorem handlerOf_yields (options : Options) (position : Position) {items : List Reduced}
    (h : FollowSchema items) (rule : Rule) :
    Yields (handlerOf rule ⟨rule, position, options⟩ items)
      (Reduces ⟨rule, position, options⟩ items) := by
  cases rule with dsimp only [handlerOf]
  | constTrue | constFalse | constNone => exact keywordConstant_yields
  | constNumber | number => exact number_yields
  | string => exact string_yields
  | stringConcat => exact stringConcat_yields rfl
  | nameRef => exact nameRef_yields
  | starExpr | starArg => exact starred_yields
  | addOp | mulOp | shiftOp | unaryOp | compOp | augAssignOp | orOp | andOp | notOp =>
      exact operator_yields
  | comparison => exact comparison_yields
  | arithExpr | termExpr | shiftExpr | andExpr | xorExpr | orExpr | powerExpr =>
      exact binary_yields
  | orTest | andTest => exact boolean_yields
  | notTest | factorExpr => exact unary_yields
  | conditionalExpr => exact conditional_yields
  | assignExpr => exact namedExpression_yields h
  | awaitExpr => exact awaitExpression_yields
  | call => exact call_yields
  | argumentList | suite | simpleStmt | decorators => exact nodeList_yields
  | keywordArg => exact keywordArgument_yields
  | mappingArg => exact mappingArgument_yields
  | «attribute» => exact attributeAccess_yields
  | attrChain => exact attributeChain_yields rfl
  | subscript => exact subscript_yields
  | slice => exact slice_yields
  | listDisplay | tupleDisplay | setDisplay => exact sequence_yields
  | dictDisplay => exact dict_yields
  | keyValue => exact keyValue_yields
  | dictUnpack => exact dictUnpack_yields
  | compFor | asyncCompFor => exact comprehensionClause_yields h
  | listComprehension | setComprehension | generatorExpression => exact comprehension_yields
  | dictComprehension => exact dictComprehension_yields
  | exprStmt => exact expressionStatement_yields
  | assignStmt => exact assignment_yields h
  | augAssignStmt => exact augmentedAssignment_yields h
  | annAssignStmt => exact annotatedAssignment_yields h
  | returnStmt | yieldExpr => exact returnOrYield_yields
  | yieldFrom => exact yieldFrom_yields
  | raiseStmt => exact raise_yields
  | assertStmt => exact assertion_yields
  | delStmt => exact deletion_yields h
  | passStmt | breakStmt | continueStmt => exact keywordStatement_yields
  | globalStmt | nonlocalStmt => exact scopeDeclaration_yields
  | dottedName => exact dottedName_yields
  | dottedAsName | importAsName => exact importAlias_yields
  | importStar => exact importStar_yields
  | importName => exact importModules_yields
  | relativeLevel => exact relativeLevel_yields
  | importFrom => exact importFrom_yields
  | ifStmt => exact ifStatement_yields rfl
  | elifClause | elseClause | finallyClause => exact clause_yields
  | forStmt => exact forLoop_yields rfl h
  | whileStmt => exact whileLoop_yields rfl
  | tryStmt => exact tryStatement_yields rfl
  | exceptClause => exact exceptClause_yields rfl
  | withStmt => exact withStatement_yields rfl
  | withItem => exact withItem_yields h
  | functionDef => exact functionDefinition_yields rfl
  | parameterList => exact parameterList_yields
  | plainParam => exact plainParameter_yields
  | defaultParam => exact defaultParameter_yields
  | starParam => exact starParameter_yields
  | mappingParam => exact mappingParameter_yields
  | slash => exact slash_yields rfl
  | lambda => exact lambda_yields
  | classDef => exact classDefinition_yields rfl
  | decorator => exact decorator_yields
  | decorated => exact decorated_yields rfl h
  | asyncStmt => exact asyncStatement_yields h
  | fileInput | moduleRoot => exact moduleRoot_yields

variable {rule : Rule} {position : Position} {items : List Reduced}

/-- A step succeeds with the answer of its handler. -/
theorem handlerOf_eq_ok {result : Reduced}
    (hok : apply options rule position items = .ok result) :
    handlerOf rule ⟨rule, position, options⟩ items = .ok result := by
  rw [apply] at hok
  cases hh : handlerOf rule ⟨rule, position, options⟩ items with
  | error e =>
      rw [hh] at hok
      cases hok
  | ok value =>
      rw [hh] at hok
      exact hok

theorem apply_eq_ok_iff {result : Reduced} :
    apply options rule position items = .ok result ↔
      handlerOf rule ⟨rule, position, options⟩ items = .ok result := by
  refine ⟨handlerOf_eq_ok, fun h => ?_⟩
  rw [apply, h]
  rfl

/-- A step that succeeds does with the nodes of its parts what a reduction may do. -/
theorem reduces_of_apply (h : FollowSchema items) {result : Reduced}
    (hok : apply options rule position items = .ok result) :
    Reduces ⟨rule, position, options⟩ items result :=
  (handlerOf_yields options position h rule).of_ok (handlerOf_eq_ok hok)

/-- A step that fails reports what it found, in the name of its rule. -/
theorem report_of_apply (h : FollowSchema items) {e : Error}
    (herror : apply options rule position items = .error e) :
    ∃ cause, cause.IsReport ∧ e = .inRule rule.name position cause := by
  have hlaw := handlerOf_yields options position h rule
  rw [apply] at herror
  cases hh : handlerOf rule ⟨rule, position, options⟩ items with
  | ok value =>
      rw [hh] at herror
      cases herror
  | error cause =>
      rw [hh] at herror
      cases herror
      have hreport := hlaw.of_error hh
      exact ⟨cause, hreport, hreport.within_eq rule.name position⟩

/-! ## Trees -/

/-- A tree that stands at some depth of another. -/
inductive ParseTree.Within (part : ParseTree) : ParseTree → Prop
  | here : Within part part
  | inside {name : String} {children : List ParseTree} {position : Position} {child : ParseTree}
      (member : child ∈ children) (within : Within part child) :
      Within part (.rule name children position)

/-- The parts of a branch, each the reduction of one child. -/
def Reducts (options : Options) (children : List ParseTree) (items : List Reduced) : Prop :=
  List.Forall₂ (fun child item => reduce options child = .ok item) children items

theorem reduceAll_eq_ok {children : List ParseTree}
    (h : reduceAll options children = .ok items) : Reducts options children items := by
  induction children generalizing items with
  | nil =>
      rw [reduceAll] at h
      cases h
      exact .nil
  | cons child rest ih =>
      rw [reduceAll] at h
      cases hf : reduce options child with
      | error e => simp [hf] at h
      | ok first =>
          cases hr : reduceAll options rest with
          | error e => simp [hf, hr] at h
          | ok others =>
              simp only [hf, hr] at h
              cases h
              exact .cons hf (ih hr)

theorem reduceAll_eq_error {children : List ParseTree} {e : Error}
    (h : reduceAll options children = .error e) :
    ∃ child ∈ children, reduce options child = .error e := by
  induction children with
  | nil =>
      rw [reduceAll] at h
      cases h
  | cons child rest ih =>
      rw [reduceAll] at h
      cases hf : reduce options child with
      | error found =>
          simp only [hf] at h
          cases h
          exact ⟨child, List.mem_cons_self, hf⟩
      | ok first =>
          cases hr : reduceAll options rest with
          | error found =>
              simp only [hf, hr] at h
              cases h
              obtain ⟨other, hother, herror⟩ := ih hr
              exact ⟨other, List.mem_cons_of_mem _ hother, herror⟩
          | ok others => simp [hf, hr] at h

/-- A branch reduces to the answer of its rule to the parts, or to a fragment of them. -/
theorem reduce_rule_eq_ok {name : String} {children : List ParseTree} {result : Reduced}
    (h : reduce options (.rule name children position) = .ok result) :
    ∃ items, Reducts options children items ∧
      ((∃ rule, Rule.ofName? name = some rule ∧ apply options rule position items = .ok result) ∨
        Rule.ofName? name = none ∧ result = .fragment name items position) := by
  rw [reduce] at h
  cases hc : reduceAll options children with
  | error e => simp [hc] at h
  | ok items =>
      simp only [hc] at h
      refine ⟨items, reduceAll_eq_ok hc, ?_⟩
      cases hn : Rule.ofName? name with
      | some rule =>
          simp only [hn] at h
          exact .inl ⟨rule, rfl, h⟩
      | none =>
          simp only [hn] at h
          cases h
          exact .inr ⟨rfl, rfl⟩

theorem reduce_rule_eq_error {name : String} {children : List ParseTree} {e : Error}
    (h : reduce options (.rule name children position) = .error e) :
    (∃ child ∈ children, reduce options child = .error e) ∨
      ∃ rule items, Reducts options children items ∧
        apply options rule position items = .error e := by
  rw [reduce] at h
  cases hc : reduceAll options children with
  | error found =>
      simp only [hc] at h
      cases h
      exact .inl (reduceAll_eq_error hc)
  | ok items =>
      simp only [hc] at h
      cases hn : Rule.ofName? name with
      | some rule =>
          simp only [hn] at h
          exact .inr ⟨rule, items, reduceAll_eq_ok hc, h⟩
      | none => simp [hn] at h

/-- What holds of the nodes at the top of the reduction of each child holds of the nodes
of all parts. -/
theorem forall_rootsOf_of_reducts {holds : Node → Prop} {children : List ParseTree}
    (h : Reducts options children items)
    (hchild : ∀ child ∈ children, ∀ {result}, reduce options child = .ok result →
      ∀ n ∈ result.roots, holds n) : ∀ n ∈ rootsOf items, holds n := by
  intro n hn
  obtain ⟨item, hitem, hroot⟩ := mem_rootsOf.mp hn
  obtain ⟨child, hmem, hreduced⟩ := exists_of_forall₂_right h hitem
  exact hchild child hmem hreduced n hroot

/-- Induction over a tree goes from the children of a branch to the branch. -/
theorem ParseTree.induction_children {motive : ParseTree → Prop} (absent : motive .absent)
    (token : ∀ t, motive (.token t))
    (rule : ∀ name children position, (∀ child ∈ children, motive child) →
      motive (.rule name children position)) : ∀ tree, motive tree
  | .absent => absent
  | .token t => token t
  | .rule name children position => rule name children position fun child h =>
      have := List.sizeOf_lt_of_mem h
      induction_children absent token rule child

/-- What every step keeps holds of the nodes at the top of every tree that reduces. -/
theorem roots_of_reduce {holds : Node → Prop}
    (step : ∀ rule position items result, apply options rule position items = .ok result →
      (∀ n ∈ rootsOf items, holds n) → ∀ n ∈ result.roots, holds n)
    {tree : ParseTree} {result : Reduced} (h : reduce options tree = .ok result) :
    ∀ n ∈ result.roots, holds n := by
  induction tree using ParseTree.induction_children generalizing result with
  | absent =>
      rw [reduce] at h
      cases h
      simp
  | token t =>
      rw [reduce] at h
      cases h
      simp
  | rule name children position ih =>
      obtain ⟨items, hitems, hresult⟩ := reduce_rule_eq_ok h
      have hkept := forall_rootsOf_of_reducts hitems ih
      rcases hresult with ⟨rule, _, hok⟩ | ⟨_, rfl⟩
      · exact step rule position items result hok hkept
      · simpa using hkept

/-- A tree that fails to reduce fails in the step of one rule, whose parts all reduced. -/
theorem exists_step_of_reduce_eq_error {tree : ParseTree} {e : Error}
    (h : reduce options tree = .error e) :
    ∃ rule position children items, Reducts options children items ∧
      apply options rule position items = .error e := by
  induction tree using ParseTree.induction_children with
  | absent =>
      rw [reduce] at h
      cases h
  | token t =>
      rw [reduce] at h
      cases h
  | rule name children position ih =>
      rcases reduce_rule_eq_error h with ⟨child, hchild, herror⟩ | ⟨rule, items, hitems, herror⟩
      · exact ih child hchild herror
      · exact ⟨rule, position, children, items, hitems, herror⟩

/-- Every branch in a tree that reduces has reduced, and so have its children. -/
theorem reduce_within {part tree : ParseTree} (hpart : part.Within tree) {result : Reduced}
    (h : reduce options tree = .ok result) : ∃ value, reduce options part = .ok value := by
  induction hpart generalizing result with
  | here => exact ⟨result, h⟩
  | inside member _ ih =>
      obtain ⟨items, hitems, _⟩ := reduce_rule_eq_ok h
      obtain ⟨item, _, hitem⟩ := exists_of_forall₂_right hitems.flip member
      exact ih hitem

/-- A tree that is lowered reduces to the module. -/
theorem reduce_of_transform {tree : ParseTree} {module : Node}
    (h : transform options tree = .ok module) : reduce options tree = .ok (.node module) := by
  rw [transform] at h
  cases hreduced : reduce options tree with
  | error e => simp [hreduced, Except.bind] at h
  | ok result =>
      simp only [hreduced, Except.bind] at h
      rw [expectModule.eq_def] at h
      split at h
      · split at h <;> cases h
        rfl
      · cases h

end TreeLowering
