/-
# Nodes

The generic nodes of the target tree: a construct, named fields and the source range
of the reduction that built it. A field holds a node, a list of nodes, a list with
empty slots, or a scalar.
-/

import TreeLowering.Construct
import TreeLowering.Number.Binary64
import TreeLowering.Operator
import TreeLowering.Position

namespace TreeLowering

open TreeLowering.Number

/-- How a name-like expression is used. -/
inductive Usage where
  | read
  | write
  | delete
  deriving DecidableEq

/-- The name a backend knows the usage by. -/
def Usage.tag : Usage → String
  | .read => "Load"
  | .write => "Store"
  | .delete => "Del"

/-- A leaf value of a field. -/
inductive Scalar where
  | none
  | bool (value : Bool)
  | int (value : Int)
  | float (value : Binary64)
  | text (value : String)
  | identifiers (names : List String)
  | operator (op : Operator)
  | operators (ops : List Operator)
  | usage (usage : Usage)
  deriving DecidableEq

mutual

/-- A construct with its fields and its source range. -/
inductive Node where
  | mk (construct : Construct) (fields : List (String × Value)) (position : Position)

/-- The content of a field. -/
inductive Value where
  | node (node : Node)
  | list (nodes : List Node)
  /-- A list in which slots may be empty. -/
  | sparse (slots : List (Option Node))
  | scalar (scalar : Scalar)

end

namespace Value

/-- The content that stands for nothing. -/
def absent : Value := .scalar .none

/-- A node, or nothing. -/
def ofOption : Option Node → Value
  | some n => .node n
  | none => absent

/-- A text. -/
def text (value : String) : Value := .scalar (.text value)

/-- A text, or nothing. -/
def ofText? : Option String → Value
  | some value => text value
  | none => absent

/-- An integer. -/
def int (value : Int) : Value := .scalar (.int value)

/-- An operator. -/
def operator (op : Operator) : Value := .scalar (.operator op)

/-- A usage. -/
def usage (u : Usage) : Value := .scalar (.usage u)

/-- Whether the content stands for nothing. -/
def isAbsent : Value → Bool
  | .scalar .none => true
  | _ => false

/-- The node that the content is. -/
def node? : Value → Option Node
  | .node n => some n
  | _ => none

/-- The nodes of a list without empty slots. -/
def list? : Value → Option (List Node)
  | .list nodes => some nodes
  | _ => none

/-- The text that the content is. -/
def text? : Value → Option String
  | .scalar (.text value) => some value
  | _ => none

/-- The usage that the content is. -/
def usage? : Value → Option Usage
  | .scalar (.usage u) => some u
  | _ => none

/-- The operator that the content is. -/
def operator? : Value → Option Operator
  | .scalar (.operator op) => some op
  | _ => none

end Value

namespace Node

/-- The construct of a node. -/
def construct : Node → Construct
  | .mk construct _ _ => construct

/-- The fields of a node, in order. -/
def fields : Node → List (String × Value)
  | .mk _ fields _ => fields

/-- The source range of a node. -/
def position : Node → Position
  | .mk _ _ position => position

/-- The content of a field. -/
def get? (n : Node) (slot : String) : Option Value :=
  n.fields.lookup slot

/-- The usage of a node, if it has one. -/
def usage? (n : Node) : Option Usage :=
  (n.get? "ctx").bind Value.usage?

end Node

end TreeLowering
