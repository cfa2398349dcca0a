/-
# Reduced values

What the reduction of a rule hands to the rule around it: a node, a list of nodes, or
an intermediate value that some enclosing rule uses up. A rule without a reduction of
its own leaves a fragment, whose parts enclosing rules look through.
-/

import TreeLowering.Grammar.Tree
import TreeLowering.Node.Basic

namespace TreeLowering

/-- A trailing block of a compound statement. -/
inductive Clause where
  | elif (test : Node) (body : List Node) (position : Position)
  | otherwise (block : List Node)
  | finish (block : List Node)

/-- A piece of a parameter list. -/
inductive Parameter where
  | plain (parameter : Node) (default? : Option Node)
  /-- `*`, with or without a name. -/
  | star (parameter? : Option Node)
  /-- `**` and a name. -/
  | mapping (parameter : Node)
  /-- `/`, which closes the positional-only parameters. -/
  | slash

/-- The result of a reduction. -/
inductive Reduced where
  | node (node : Node)
  | nodes (nodes : List Node)
  | operator (op : Operator)
  | token (token : Token)
  | fragment (rule : String) (children : List Reduced) (position : Position)
  | absent
  /-- An entry `key: value` of a dict display. -/
  | pair (key value : Node)
  /-- An entry `**mapping` of a dict display. -/
  | unpack (mapping : Node)
  /-- A dotted path such as `os.path`. -/
  | dotted (path : String)
  /-- The number of leading dots of a relative import, in a machine word. -/
  | level (dots : UInt64)
  | clause (clause : Clause)
  | parameter (parameter : Parameter)

namespace Reduced

/-- A short description for messages. -/
def describe : Reduced → String
  | node n => s!"`{n.construct.tag}` node"
  | nodes ns => s!"list of {ns.length} nodes"
  | operator op => s!"operator `{op.tag}`"
  | token t => s!"token `{t.text}`"
  | fragment rule _ _ => s!"`{rule}` fragment"
  | absent => "nothing"
  | pair _ _ => "key/value pair"
  | unpack _ => "dict unpacking"
  | dotted path => s!"dotted name `{path}`"
  | level dots => s!"relative level {dots.toNat}"
  | clause _ => "clause"
  | parameter _ => "parameter"

/-- A description of a part that may be missing. -/
def describe? : Option Reduced → String
  | some item => item.describe
  | none => "nothing"

/-- Whether a part is a token. -/
def isToken : Reduced → Bool
  | token _ => true
  | _ => false

/-- Whether a part carries nothing: a token or a placeholder. -/
def isFiller : Reduced → Bool
  | token _ => true
  | absent => true
  | _ => false

/-- The operator that a part is. -/
def operator? : Reduced → Option Operator
  | operator op => some op
  | _ => none

end Reduced

end TreeLowering
