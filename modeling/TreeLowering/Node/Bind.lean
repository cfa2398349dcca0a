/-
# Binding sites

A node in the place of a target is rebuilt with the usage of that place. The usage
reaches the elements of a list or tuple and the value of a starred expression; it stops
at an attribute or a subscript, whose object is still read.
-/

import TreeLowering.Node.Build

namespace TreeLowering

/-- The place in which a usage is asked for. -/
def Usage.place : Usage → String
  | .read => "read"
  | .write => "assignment"
  | .delete => "deletion"

/-- The slots of a target that are rewritten: its usage, and the nodes that share it. -/
def Construct.boundSlots (construct : Construct) : List String :=
  if construct.hasSlot "elts" then ["ctx", "elts"]
  else if construct = .starred then ["ctx", "value"]
  else ["ctx"]

namespace Node

mutual

/-- The node as a target in the given usage. Constructs without a usage cannot be
targets, and a slot that is rewritten must be there. -/
def bind (usage : Usage) : Node → Except Error Node
  | .mk construct fields position =>
    if construct.hasSlot "ctx" then
      match construct.boundSlots.find? fun slot => !(fields.map (·.1)).contains slot with
      | some slot => .error ((SlotFault.unknown slot).error construct)
      | none => match bindFields usage construct fields with
        | .ok bound => .ok (.mk construct bound position)
        | .error e => .error e
    else .error (.unrecognized s!"{usage.place} target" construct.tag)

/-- The fields of a target: its own usage is replaced and passed on. -/
def bindFields (usage : Usage) (construct : Construct) :
    List (String × Value) → Except Error (List (String × Value))
  | [] => .ok []
  | (slot, value) :: rest =>
    match bindField usage construct slot value with
    | .error e => .error e
    | .ok bound => match bindFields usage construct rest with
      | .error e => .error e
      | .ok others => .ok ((slot, bound) :: others)

/-- The content of one field of a target. The elements of a display are targets when
they are a list, the value of a starred expression when it is a node. -/
def bindField (usage : Usage) (construct : Construct) (slot : String) (value : Value) :
    Except Error Value :=
  if slot = "ctx" then .ok (.usage usage)
  else match value with
    | .list nodes => if slot = "elts" then (bindAll usage nodes).map .list else .ok value
    | .node n =>
      if construct = .starred ∧ slot = "value" then (bind usage n).map .node else .ok value
    | _ => .ok value

/-- The nodes of a list as targets. -/
def bindAll (usage : Usage) : List Node → Except Error (List Node)
  | [] => .ok []
  | n :: rest =>
    match bind usage n with
    | .error e => .error e
    | .ok bound => match bindAll usage rest with
      | .error e => .error e
      | .ok others => .ok (bound :: others)

end

end Node

end TreeLowering
