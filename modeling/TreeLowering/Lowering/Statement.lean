/-
# Simple statements

Expression statements, assignments and the statements that a keyword introduces. A
target is bound to its usage before it is attached to its statement.
-/

import TreeLowering.Lowering.Reduction
import TreeLowering.Node.Bind

namespace TreeLowering.Lowering

open TreeLowering.Reduced

/-- An expression as a statement. -/
def expressionStatement : Handler := fun r => Reading.answer do
  let value ← r.expression "expression" (← Reading.next)
  Reading.done
  r.build .exprStmt [("value", .node value)]

/-! ## Assignments -/

/-- An assignment target. -/
def assignmentTarget (r : Reduction) (item : Reduced) : Except Error Node := do
  (← r.expression "assignment target" (some item)).bind .write

/-- `target = ... = value`: every part but the last is a target. -/
def assignment : Handler := fun r => Reading.answer do
  let value ← r.expression "assigned value" (← Reading.nextBack)
  let others ← Reading.drain
  if others.isEmpty then .error (.shape "assignment target" "nothing")
  else
    let targets ← (others.mapM (assignmentTarget r) : Except Error (List Node))
    r.build .assign [("targets", .list targets), ("value", .node value)]

/-- A binary operator. -/
def expectBinary (what : String) : Option Reduced → Except Error Operator
  | some (.operator op) =>
    if op.operatorClass = .binary then .ok op else .error (.unrecognized what op.tag)
  | item => .error (unexpected what item)

/-- `target op= value` -/
def augmentedAssignment : Handler := fun r => Reading.answer do
  let target ← (← Reading.node "augmented target").bind .write
  let op ← expectBinary "augmented operator" (← Reading.next)
  let value ← r.expression "augmented value" (← Reading.next)
  Reading.done
  r.build .augAssign [("target", .node target), ("op", .operator op), ("value", .node value)]

/-- `target: annotation [= value]`. The target is simple when it is a plain name. -/
def annotatedAssignment : Handler := fun r => Reading.answer do
  let target ← (← Reading.node "annotated target").bind .write
  let annotation ← Reading.node "annotation"
  let value ← Reading.optionalNode "annotated value"
  Reading.done
  r.build .annAssign [("target", .node target), ("annotation", .node annotation),
    ("value", .ofOption value), ("simple", .int (if target.construct = .name then 1 else 0))]

/-! ## Keyword statements -/

/-- The value that a `return` or `yield` may have. -/
def returnedValue (r : Reduction) : Option Reduced → Except Error (Option Node)
  | none => .ok none
  | some .absent => .ok none
  | item => (r.expression "returned value" item).map some

/-- `return [value]` and `yield [value]`. -/
def returnOrYield : Handler := fun r => Reading.answer do
  let value ← returnedValue r (← Reading.next)
  Reading.done
  r.build (if r.rule = .returnStmt then .returnStmt else .yieldExpr)
    [("value", .ofOption value)]

/-- `yield from iterable` -/
def yieldFrom : Handler := fun r => Reading.answer do
  let value ← Reading.node "delegated iterable"
  Reading.done
  r.build .yieldFrom [("value", .node value)]

/-- `raise [exception [from cause]]` -/
def raise : Handler := fun r => Reading.answer do
  let exc ← Reading.optionalNode "raised exception"
  let cause ← Reading.optionalNode "exception cause"
  Reading.done
  if exc.isNone && cause.isSome then
    .error (.shape "raised exception" "cause without exception")
  else r.build .raiseStmt [("exc", .ofOption exc), ("cause", .ofOption cause)]

/-- `assert test [, message]` -/
def assertion : Handler := fun r => Reading.answer do
  let test ← Reading.node "asserted condition"
  let msg ← Reading.optionalNode "assertion message"
  Reading.done
  r.build .assertStmt [("test", .node test), ("msg", .ofOption msg)]

/-- `del target, ...` -/
def deletion : Handler := fun r items => do
  let nodes ← gather items
  if nodes.isEmpty then .error (.shape "deletion target" "nothing")
  else do
    let targets ← nodes.mapM (Node.bind .delete)
    r.build .deleteStmt [("targets", .list targets)]

/-- The statement that consists of a keyword alone. -/
def keywordStatement? : Rule → Option Construct
  | .passStmt => some .passStmt
  | .breakStmt => some .breakStmt
  | .continueStmt => some .continueStmt
  | _ => none

/-- A statement of one keyword, whose token may be present. -/
def keywordStatement : Handler := fun r items =>
  match keywordStatement? r.rule with
  | some construct => do
    onlyTokens "no operands" items
    r.build construct []
  | none => .error (.unrecognized "keyword statement" r.rule.name)

/-- `global name, ...` and `nonlocal name, ...`. -/
def scopeDeclaration : Handler := fun r items => do
  let names ← items.mapM fun item => identifier "declared name" (some item)
  if names.isEmpty then .error (.shape "declared name" "nothing")
  else
    r.build (if r.rule = .globalStmt then .globalStmt else .nonlocalStmt)
      [("names", .scalar (.identifiers names))]

end TreeLowering.Lowering
