/-
# Names, accesses and other expressions

Names, conditional and named expressions, attribute accesses, subscripts and slices.
-/

import TreeLowering.Lowering.Reduction
import TreeLowering.Node.Bind

namespace TreeLowering.Lowering

open TreeLowering.Reduced

/-- A name that is read. -/
def nameRef : Handler := fun r => Reading.answer do
  let id ← Reading.identifier "variable name"
  Reading.done
  r.build .name [("id", .text id), ("ctx", .usage .read)]

/-- `*value`, as an expression or as an argument. -/
def starred : Handler := fun r => Reading.answer do
  let value ← Reading.node "starred value"
  Reading.done
  r.build .starred [("value", .node value), ("ctx", .usage .read)]

/-- `body if test else orelse` -/
def conditional : Handler := fun r => Reading.answer do
  let body ← Reading.node "conditional body"
  let test ← Reading.node "condition"
  let orelse ← Reading.node "alternative"
  Reading.done
  r.build .ifExp [("test", .node test), ("body", .node body), ("orelse", .node orelse)]

/-- `target := value` -/
def namedExpression : Handler := fun r => Reading.answer do
  let target ← (← Reading.node "binding target").bind .write
  let value ← Reading.node "bound value"
  Reading.done
  r.build .namedExpr [("target", .node target), ("value", .node value)]

/-- `await value` -/
def awaitExpression : Handler := fun r => Reading.answer do
  let value ← Reading.node "awaited value"
  Reading.done
  r.build .awaitExpr [("value", .node value)]

/-! ## Attributes -/

/-- An attribute that is read. -/
def attributeOf (position : Position) (value : Node) (attr : String) : Except Error Node :=
  Node.build .attribute position
    [("value", .node value), ("attr", .text attr), ("ctx", .usage .read)]

/-- `value.attr` -/
def attributeAccess : Handler := fun r => Reading.answer do
  let value ← Reading.node "attribute owner"
  let attr ← Reading.identifier "attribute name"
  Reading.done
  (attributeOf r.position value attr).map .node

/-- The name that a step of an attribute chain contributes, and where it stands: a
token, a plain name, or the last part of an attribute access. -/
def chainStep : Reduced → Except Error (String × Position)
  | .token t => .ok (t.text, t.position)
  | .node n =>
    match ((n.get? "id").or (n.get? "attr")).bind Value.text? with
    | some name => .ok (name, n.position)
    | none => .error (.unrecognized "attribute step" n.construct.tag)
  | other => .error (unexpected "attribute step" (some other))

/-- The range of a link of an attribute chain: from the start of the chain to the end
of the step. The last link has the range of the whole reduction, whose end also stands
in for that of a step without a position. -/
def linkPosition (r : Reduction) (start step : Position) (isLast : Bool) : Position :=
  if isLast then r.position
  else start.span (if step = .unknown then r.position else step)

/-- The chain of attribute accesses on `chain`, from left to right. -/
def attributeLinks (r : Reduction) (start : Position) (chain : Node) :
    List Reduced → Except Error Node
  | [] => .ok chain
  | item :: rest => do
    let (attr, step) ← chainStep item
    let link ← attributeOf (linkPosition r start step rest.isEmpty) chain attr
    attributeLinks r start link rest

/-- `base.step1.step2` as nested attribute accesses. -/
def attributeChain : Handler := fun r => Reading.answer do
  let base ← Reading.node "attribute base"
  let steps ← Reading.drain
  if steps.isEmpty then .error (.shape "attribute name" "nothing")
  else (attributeLinks r base.position base steps).map .node

/-! ## Subscripts -/

/-- `value[index]`, where an index of several expressions is a tuple. -/
def subscript : Handler := fun r => Reading.answer do
  let value ← Reading.node "subscripted value"
  let index ← r.expression "subscript index" (← Reading.next)
  Reading.done
  r.build .subscript [("value", .node value), ("slice", .node index), ("ctx", .usage .read)]

/-- `lower:upper:step`, each of which may be missing. -/
def slice : Handler := fun r => Reading.answer do
  let lower ← Reading.optionalNode "slice lower bound"
  let upper ← Reading.optionalNode "slice upper bound"
  let step ← Reading.optionalNode "slice step"
  Reading.done
  r.build .slice [("lower", .ofOption lower), ("upper", .ofOption upper),
    ("step", .ofOption step)]

end TreeLowering.Lowering
