/-
# Calls and their arguments

Arguments are gathered in source order and split into positional and keyword ones.
-/

import TreeLowering.Lowering.Reduction

namespace TreeLowering.Lowering

open TreeLowering.Reduced

/-- Whether a node is a keyword argument. -/
def isKeyword (n : Node) : Bool :=
  n.construct = .keyword

/-- The positional and the keyword arguments among parts, each in source order. -/
def classifyArguments (items : List Reduced) : Except Error (List Node × List Node) := do
  let nodes ← gather items
  .ok (nodes.filter fun n => !isKeyword n, nodes.filter isKeyword)

/-- A call of `func` with the arguments among parts. -/
def callOf (r : Reduction) (func : Node) (items : List Reduced) : Except Error Reduced := do
  let (args, keywords) ← classifyArguments items
  r.build .call [("func", .node func), ("args", .list args), ("keywords", .list keywords)]

/-- `func(arguments)` -/
def call : Handler := fun r => Reading.answer do
  let func ← Reading.node "callee"
  callOf r func (← Reading.drain)

/-- `name=value` -/
def keywordArgument : Handler := fun r => Reading.answer do
  let arg ← Reading.identifier "keyword name"
  let value ← Reading.node "keyword value"
  Reading.done
  r.build .keyword [("arg", .text arg), ("value", .node value)]

/-- `**mapping`, a keyword without a name. -/
def mappingArgument : Handler := fun r => Reading.answer do
  let value ← Reading.node "keyword mapping"
  Reading.done
  r.build .keyword [("arg", .absent), ("value", .node value)]

/-- A run of nodes as it stands: arguments, statements or decorators. -/
def nodeList : Handler := fun _ items =>
  (gather items).map .nodes

end TreeLowering.Lowering
