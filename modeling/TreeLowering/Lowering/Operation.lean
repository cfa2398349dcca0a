/-
# Operations

Operators and their applications. Precedence is not computed: it lies in which rule
fired, so each application has one operator, or the operators of one comparison chain.
-/

import TreeLowering.Lowering.Reduction
import TreeLowering.Text.Blank

namespace TreeLowering.Lowering

open TreeLowering.Reduced

/-- An operator if it is one of those a rule stands for. -/
def among (operators : List Operator) (op : Option Operator) : Option Operator :=
  op.filter operators.contains

/-- The operator that a text spells for an operator rule. Other rules have no
operators at all. -/
def spelled? (text : String) : Rule → Option (Option Operator)
  | .addOp => some (among [.add, .sub] (Operator.binary? text))
  | .mulOp =>
    some (among [.mult, .matMult, .div, .floorDiv, .mod] (Operator.binary? text))
  | .shiftOp => some (among [.leftShift, .rightShift] (Operator.binary? text))
  | .unaryOp => some (among [.plus, .minus, .invert] (Operator.unary? text))
  | .notOp => some (among [.not] (Operator.unary? text))
  | .compOp => some (Operator.comparison? text)
  | .augAssignOp => some (Operator.augmented? text)
  | .orOp => some (among [.or] (Operator.boolean? text))
  | .andOp => some (among [.and] (Operator.boolean? text))
  | _ => none

/-- The words of an operator token. -/
def tokenWords : Reduced → Except Error (List String)
  | .token t => .ok (Text.splitWords t.text)
  | other => .error (unexpected "operator token" (some other))

/-- The words of all tokens, one blank apart. However they are spread over the tokens,
an operator of several words reads the same. -/
def lexeme (items : List Reduced) : Except Error String := do
  let words := (← items.mapM tokenWords).flatten
  if words.isEmpty then .error (.shape "operator token" "nothing")
  else .ok (" ".intercalate words)

/-- The operator of an operator rule. -/
def operator : Handler := fun r items => do
  let text ← lexeme items
  match spelled? text r.rule with
  | some (some op) => .ok (.operator op)
  | some none => .error (.unrecognized s!"`{r.rule.name}` token" text)
  | none => .error (.unrecognized "operator rule" r.rule.name)

/-! ## Applications -/

/-- The operators and the operands that follow the first operand of a comparison
chain, told apart by what they are. -/
def splitChain : List Reduced → Except Error (List Operator × List Node)
  | [] => .ok ([], [])
  | .operator op :: rest =>
    if op.operatorClass = .comparison then do
      let (ops, operands) ← splitChain rest
      .ok (op :: ops, operands)
    else .error (.unrecognized "comparison operator" op.tag)
  | .node n :: rest => do
    let (ops, operands) ← splitChain rest
    .ok (ops, n :: operands)
  | other :: _ => .error (unexpected "comparison operand" (some other))

/-- A comparison chain such as `a < b <= c`, as one node with all its operators. -/
def comparison : Handler := fun r => Reading.answer do
  let left ← Reading.node "left operand"
  let (ops, comparators) ← splitChain (← Reading.drain)
  if ops.isEmpty || ops.length != comparators.length then
    .error (.shape s!"one comparator per operator ({ops.length} operators)"
      s!"{comparators.length} comparators")
  else
    r.build .compare [("left", .node left), ("ops", .scalar (.operators ops)),
      ("comparators", .list comparators)]

/-- The operator of a rule whose symbol the grammar does not keep. -/
def impliedOperator? : Rule → Option Operator
  | .andExpr => some .bitAnd
  | .xorExpr => some .bitXor
  | .orExpr => some .bitOr
  | .powerExpr => some .pow
  | _ => none

/-- The operator and the right operand of a binary step, after its left operand. -/
def operatorAndRight (rule : Rule) : List Reduced → Except Error (Operator × Node) :=
  Reading.answer do
    match ← Reading.next, impliedOperator? rule with
    | some (.operator op), _ =>
      let right ← Reading.node "right operand"
      Reading.done
      return (op, right)
    | some (.node right), some op =>
      Reading.done
      return (op, right)
    | item, _ => .error (unexpected "binary operator" item)

/-- One step of a chain of binary operators, applied from the left. -/
def binary : Handler := fun r => Reading.answer do
  let left ← Reading.node "left operand"
  let (op, right) ← operatorAndRight r.rule (← Reading.drain)
  if op.operatorClass = .binary then
    r.build .binOp [("left", .node left), ("op", .operator op), ("right", .node right)]
  else .error (.unrecognized "binary operator" op.tag)

/-- The operands of a boolean chain: everything but operators, tokens and
placeholders. -/
def booleanOperands (items : List Reduced) : Except Error (List Node) :=
  (items.filter fun item => item.operator?.isNone && !item.isFiller).mapM fun item =>
    expectNode "boolean operand" (some item)

/-- A boolean chain, whose operator may stand anywhere among its operands. -/
def boolean : Handler := fun r items =>
  match items.filterMap operator? with
  | [op] =>
    if op.operatorClass = .boolean then do
      let values ← booleanOperands items
      if values.length < 2 then
        .error (.shape "at least two boolean operands" s!"{values.length}")
      else r.build .boolOp [("op", .operator op), ("values", .list values)]
    else .error (.unrecognized "boolean operator" op.tag)
  | ops => .error (.ambiguousBoolean ops.length)

/-- The operator and the operand of a unary application. The rule of `not` may leave
its operator out. -/
def operatorAndOperand (rule : Rule) : List Reduced → Except Error (Operator × Node) :=
  Reading.answer do
    match ← Reading.next with
    | some (.operator op) =>
      let operand ← Reading.node "operand"
      Reading.done
      return (op, operand)
    | some (.node operand) =>
      if rule = .notTest then
        Reading.done
        return (.not, operand)
      else .error (unexpected "unary operator" (some (.node operand)))
    | item => .error (unexpected "unary operator" item)

/-- A unary operator and its operand. -/
def unary : Handler := fun r => Reading.answer do
  let (op, operand) ← operatorAndOperand r.rule (← Reading.drain)
  if op.operatorClass = .unary then
    r.build .unaryOp [("op", .operator op), ("operand", .node operand)]
  else .error (.unrecognized "unary operator" op.tag)

end TreeLowering.Lowering
