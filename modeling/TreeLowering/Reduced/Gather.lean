/-
# Gathering nodes

The nodes among the parts of a reduction, in source order. Lists and fragments are
looked through; tokens and placeholders are skipped. Anything else is not an element of
a list of nodes.
-/

import TreeLowering.Reduced.Parts

namespace TreeLowering.Reduced

mutual

/-- The nodes in a part. -/
def gatherItem : Reduced → Except Error (List Node)
  | .node n => .ok [n]
  | .nodes ns => .ok ns
  | .fragment _ children _ => gather children
  | .token _ => .ok []
  | .absent => .ok []
  | other => .error (.unrecognized "element in node list" other.describe)

/-- The nodes in a list of parts. -/
def gather : List Reduced → Except Error (List Node)
  | [] => .ok []
  | item :: rest =>
    match gatherItem item with
    | .error e => .error e
    | .ok first => match gather rest with
      | .error e => .error e
      | .ok others => .ok (first ++ others)

end

mutual

/-- Whether a part is a comma or a fragment with one in it. -/
def hasComma : Reduced → Bool
  | .token t => t.text == ","
  | .fragment _ children _ => anyComma children
  | _ => false

/-- Whether a list of parts has a comma in it. -/
def anyComma : List Reduced → Bool
  | [] => false
  | item :: rest => hasComma item || anyComma rest

end

/-- A list of nodes that are all of one construct, and at least one. -/
def allOf (construct : Construct) (what : String) (nodes : List Node) :
    Except Error (List Node) :=
  if nodes.isEmpty then .error (.shape what "nothing")
  else match nodes.find? fun n => n.construct ≠ construct with
    | some stray => .error (unexpected what (some (.node stray)))
    | none => .ok nodes

/-- A block: one statement or a list of them. -/
def block (what : String) : Option Reduced → Except Error (List Node)
  | some (.node n) => .ok [n]
  | some (.nodes ns) => .ok ns
  | some (.fragment rule children position) => gatherItem (.fragment rule children position)
  | item => .error (unexpected what item)

/-- The block of a trailing `else`, which may be missing. -/
def elseBlock : Option Reduced → Except Error (List Node)
  | none => .ok []
  | some .absent => .ok []
  | some (.clause (.otherwise ns)) => .ok ns
  | item => block "else block" item

end TreeLowering.Reduced
