/-
# Building nodes

A node is built from fields in any order, which must be exactly the slots of its
construct; it stores them in the order of the catalogue. The first fault in the list of
fields decides the failure, and a slot that is missing counts after every field
supplied.
-/

import TreeLowering.Error
import TreeLowering.Node.Basic

namespace TreeLowering

/-- What is wrong with the fields supplied for a construct. -/
inductive SlotFault where
  | repeated (slot : String)
  | unknown (slot : String)
  | missing (slot : String)
  deriving DecidableEq

/-- The words for a fault. -/
def SlotFault.text : SlotFault → String
  | .repeated slot => s!"field `{slot}` supplied twice"
  | .unknown slot => s!"unknown field `{slot}`"
  | .missing slot => s!"missing field `{slot}`"

/-- The failure that a fault causes. -/
def SlotFault.error (fault : SlotFault) (construct : Construct) : Error :=
  .incompleteNode construct fault.text

namespace Construct

/-- The first name that repeats one of those seen before it, or that is no slot. -/
def suppliedFault? (construct : Construct) (seen : List String) : List String → Option SlotFault
  | [] => none
  | slot :: rest =>
    if seen.contains slot then some (.repeated slot)
    else if !construct.hasSlot slot then some (.unknown slot)
    else suppliedFault? construct (slot :: seen) rest

/-- The first slot that no name supplies. -/
def missingFault? (construct : Construct) (names : List String) : Option SlotFault :=
  (construct.slots.find? fun slot => !names.contains slot).map .missing

/-- The fault of a list of names, if they are not exactly the slots. -/
def fault? (construct : Construct) (names : List String) : Option SlotFault :=
  (construct.suppliedFault? [] names).or (construct.missingFault? names)

end Construct

/-- The content of each slot among the fields supplied for it, in slot order. -/
def arrange (slots : List String) (fields : List (String × Value)) : List (String × Value) :=
  slots.filterMap fun slot => (fields.lookup slot).map fun value => (slot, value)

namespace Node

/-- The node with the given fields. -/
def build (construct : Construct) (position : Position) (fields : List (String × Value)) :
    Except Error Node :=
  match construct.fault? (fields.map (·.1)) with
  | some fault => .error (fault.error construct)
  | none => .ok (.mk construct (arrange construct.slots fields) position)

/-- The fields with the content of the first one of that name replaced, if there is
one. -/
def replaceField? (slot : String) (value : Value) :
    List (String × Value) → Option (List (String × Value))
  | [] => none
  | (name, old) :: rest =>
    if name = slot then some ((name, value) :: rest)
    else (replaceField? slot value rest).map ((name, old) :: ·)

/-- The node with the content of one slot replaced. -/
def setField (n : Node) (slot : String) (value : Value) : Except Error Node :=
  match replaceField? slot value n.fields with
  | some fields => .ok (.mk n.construct fields n.position)
  | none => .error ((SlotFault.unknown slot).error n.construct)

end Node

end TreeLowering
