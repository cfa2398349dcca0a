/-
# Comprehensions

The clauses of comprehensions and the four displays built from them.
-/

import TreeLowering.Lowering.Reduction
import TreeLowering.Node.Bind

namespace TreeLowering.Lowering

open TreeLowering.Reduced

/-- Whether a node is a clause of a comprehension. -/
def isComprehension (n : Node) : Bool :=
  n.construct = .comprehension

/-- `for target in iterable [if condition]`, in its plain or asynchronous form. -/
def comprehensionClause : Handler := fun r => Reading.answer do
  let target ← (← Reading.node "comprehension target").bind .write
  let iterable ← Reading.node "comprehension iterable"
  let condition ← Reading.optionalNode "comprehension condition"
  Reading.done
  if condition.any isComprehension then
    .error (.unrecognized "comprehension condition" "nested comprehension clause")
  else
    r.build .comprehension [("target", .node target), ("iter", .node iterable),
      ("ifs", .list condition.toList),
      ("is_async", .int (if r.rule = .asyncCompFor then 1 else 0))]

/-- The clauses of a display: at least one, and nothing else. -/
def clauses (items : List Reduced) : Except Error (List Node) := do
  allOf .comprehension "comprehension clause" (← gather items)

/-- The construct of a comprehension with single elements. -/
def comprehensionConstruct? : Rule → Option Construct
  | .listComprehension => some .listComp
  | .setComprehension => some .setComp
  | .generatorExpression => some .generatorExp
  | _ => none

/-- A comprehension with single elements. -/
def comprehension : Handler := fun r => Reading.answer do
  match comprehensionConstruct? r.rule with
  | some construct =>
    let element ← Reading.node "comprehension element"
    let generators ← clauses (← Reading.drain)
    r.build construct [("elt", .node element), ("generators", .list generators)]
  | none => .error (.unrecognized "comprehension kind" r.rule.name)

/-- A dict comprehension with a given entry. -/
def dictComprehensionOf (r : Reduction) (key value : Node) (items : List Reduced) :
    Except Error Reduced := do
  let generators ← clauses items
  r.build .dictComp [("key", .node key), ("value", .node value),
    ("generators", .list generators)]

/-- A dict comprehension, whose entry is a pair or two nodes. -/
def dictComprehension : Handler := fun r => Reading.answer do
  match ← Reading.next with
  | some (.pair key value) => dictComprehensionOf r key value (← Reading.drain)
  | some (.node key) =>
    let value ← Reading.node "comprehension value"
    dictComprehensionOf r key value (← Reading.drain)
  | item => .error (unexpected "comprehension entry" item)

end TreeLowering.Lowering
