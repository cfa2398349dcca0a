/-
# Reductions

The event that a handler answers: the rule that fired, the source range it covers and
the options of the run. A handler sees the parts of the reduction, already reduced, in a
queue that it reads from both ends, and builds its node at the source range of the event.
-/

import TreeLowering.Grammar.Rule
import TreeLowering.Node.Build
import TreeLowering.Options.Basic
import TreeLowering.Reduced.Gather
import TreeLowering.Reduced.Queue

namespace TreeLowering

/-- The event of a rule. -/
structure Reduction where
  rule : Rule
  position : Position
  options : Options

/-- The answer to an event with given parts. -/
abbrev Handler := Reduction → List Reduced → Except Error Reduced

namespace Reduction

/-- A node at the range of the event. -/
def node (r : Reduction) (construct : Construct) (fields : List (String × Value)) :
    Except Error Node :=
  Node.build construct r.position fields

/-- A node at the range of the event, as the result of the reduction. -/
def build (r : Reduction) (construct : Construct) (fields : List (String × Value)) :
    Except Error Reduced :=
  (r.node construct fields).map .node

/-- A tuple that is read. -/
def tuple (r : Reduction) (elements : List Node) : Except Error Node :=
  r.node .tuple [("elts", .list elements), ("ctx", .usage .read)]

/-- A list of expressions without brackets. Several expressions, or one with a comma
behind it, make a tuple; one alone stands for itself. -/
def bareList (r : Reduction) (what : String) (item : Reduced) : Except Error Node := do
  match ← item.gatherItem with
  | [] => .error (.shape what "empty list")
  | [element] => if item.hasComma then r.tuple [element] else .ok element
  | elements => r.tuple elements

/-- An expression in a place where a list without brackets may stand. -/
def expression (r : Reduction) (what : String) : Option Reduced → Except Error Node
  | some (.node n) => .ok n
  | some (.nodes ns) => r.bareList what (.nodes ns)
  | some (.fragment rule children position) =>
    r.bareList what (.fragment rule children position)
  | item => .error (Reduced.unexpected what item)

end Reduction

end TreeLowering
