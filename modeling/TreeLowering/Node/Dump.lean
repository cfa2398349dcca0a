/-
# Dumps

The plain tree that is handed to a backend. Lists with and without empty slots become
one kind of list, in which an empty slot is the scalar that stands for nothing. Written
as JSON, a node is an object with its construct, its fields in slot order and the four
numbers of its source range.
-/

import TreeLowering.Json.Value
import TreeLowering.Node.Basic

namespace TreeLowering

/-- A plain tree. -/
inductive Dump where
  | node (construct : Construct) (fields : List (String × Dump)) (position : Position)
  | list (items : List Dump)
  | scalar (scalar : Scalar)

mutual

/-- The plain tree of a node. -/
def Node.dump : Node → Dump
  | .mk construct fields position => .node construct (Node.dumpFields fields) position

/-- The plain trees of the fields of a node. -/
def Node.dumpFields : List (String × Value) → List (String × Dump)
  | [] => []
  | (slot, value) :: rest => (slot, Value.dump value) :: Node.dumpFields rest

/-- The plain tree of the content of a field. -/
def Value.dump : Value → Dump
  | .node n => Node.dump n
  | .list nodes => .list (Node.dumpAll nodes)
  | .sparse slots => .list (Node.dumpSlots slots)
  | .scalar s => .scalar s

/-- The plain trees of a list of nodes. -/
def Node.dumpAll : List Node → List Dump
  | [] => []
  | n :: rest => Node.dump n :: Node.dumpAll rest

/-- The plain trees of a list with empty slots. -/
def Node.dumpSlots : List (Option Node) → List Dump
  | [] => []
  | some n :: rest => Node.dump n :: Node.dumpSlots rest
  | none :: rest => .scalar .none :: Node.dumpSlots rest

end

/-- An operator or usage as the object of its name. -/
def taggedJson (tag : String) : Json :=
  .object [("_type", .string tag)]

/-- A scalar as JSON. -/
def Scalar.toJson : Scalar → Json
  | .none => .null
  | .bool value => .bool value
  | .int value => .integer value
  | .float value => .float value
  | .text value => .string value
  | .identifiers names => .array (names.map .string)
  | .operator op => taggedJson op.tag
  | .operators ops => .array (ops.map fun op => taggedJson op.tag)
  | .usage u => taggedJson u.tag

namespace Dump

/-- The source range of a node as members of its object. -/
def positionMembers (p : Position) : List (String × Json) :=
  [("lineno", .integer p.line), ("col_offset", .integer p.column),
    ("end_lineno", .integer p.endLine), ("end_col_offset", .integer p.endColumn)]

mutual

/-- A plain tree as JSON. -/
def toJson : Dump → Json
  | .node construct fields position =>
    .object (("_type", .string construct.tag) :: (fieldMembers fields ++ positionMembers position))
  | .list items => .array (toJsonList items)
  | .scalar s => s.toJson

/-- The members for the fields of a node. -/
def fieldMembers : List (String × Dump) → List (String × Json)
  | [] => []
  | (slot, value) :: rest => (slot, toJson value) :: fieldMembers rest

/-- A list of plain trees as JSON. -/
def toJsonList : List Dump → List Json
  | [] => []
  | item :: rest => toJson item :: toJsonList rest

end

/-- The content of a field of a node. -/
def get? (slot : String) : Dump → Option Dump
  | .node _ fields _ => fields.lookup slot
  | _ => none

end Dump

end TreeLowering
