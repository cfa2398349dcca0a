/-
# Census of a tree

How many nodes a tree has, and the summary line that reports it together with the
number of statements in the body of the root.
-/

import TreeLowering.Node.Basic

namespace TreeLowering

mutual

/-- The number of nodes in a tree, its root included. -/
def Node.count : Node → Nat
  | .mk _ fields _ => 1 + Node.countFields fields

/-- The number of nodes in the fields of a node. -/
def Node.countFields : List (String × Value) → Nat
  | [] => 0
  | (_, value) :: rest => Value.count value + Node.countFields rest

/-- The number of nodes in the content of a field. -/
def Value.count : Value → Nat
  | .node n => Node.count n
  | .list nodes => Node.countAll nodes
  | .sparse slots => Node.countSlots slots
  | .scalar _ => 0

/-- The number of nodes in a list of trees. -/
def Node.countAll : List Node → Nat
  | [] => 0
  | n :: rest => Node.count n + Node.countAll rest

/-- The number of nodes in a list with empty slots. -/
def Node.countSlots : List (Option Node) → Nat
  | [] => 0
  | some n :: rest => Node.count n + Node.countSlots rest
  | none :: rest => Node.countSlots rest

end

namespace Node

/-- The number of statements in the body of a node; without a list of them, none. -/
def statementCount (n : Node) : Nat :=
  (((n.get? "body").bind Value.list?).map List.length).getD 0

/-- The line that sums up a tree. -/
def summary (n : Node) : String :=
  s!"ok: {n.statementCount} statements, {n.count} nodes"

end Node

end TreeLowering
