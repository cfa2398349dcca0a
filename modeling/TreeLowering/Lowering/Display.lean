/-
# Displays

List, tuple, set and dict displays. The entries of a dict keep their order; one that
unpacks a mapping leaves the slot of its key empty.
-/

import TreeLowering.Lowering.Reduction

namespace TreeLowering.Lowering

open TreeLowering.Reduced

/-- A display of elements in source order. -/
def sequence : Handler := fun r items => do
  let elements ← gather items
  match r.rule with
  | .listDisplay => r.build .list [("elts", .list elements), ("ctx", .usage .read)]
  | .tupleDisplay => (r.tuple elements).map .node
  | .setDisplay => r.build .set [("elts", .list elements)]
  | other => .error (.unrecognized "container kind" other.name)

/-- An entry of a dict display: a key, unless a mapping is unpacked, and a value. -/
abbrev Entry := Option Node × Node

mutual

/-- The entries in a part of a dict display. -/
def entriesOf : Reduced → Except Error (List Entry)
  | .pair key value => .ok [(some key, value)]
  | .unpack mapping => .ok [(none, mapping)]
  | .fragment _ children _ => entries children
  | .token _ => .ok []
  | .absent => .ok []
  | other => .error (unexpected "dict entry" (some other))

/-- The entries in a list of parts. -/
def entries : List Reduced → Except Error (List Entry)
  | [] => .ok []
  | item :: rest =>
    match entriesOf item with
    | .error e => .error e
    | .ok first => match entries rest with
      | .error e => .error e
      | .ok others => .ok (first ++ others)

end

/-- A dict display. -/
def dict : Handler := fun r items => do
  let found ← entries items
  r.build .dict [("keys", .sparse (found.map (·.1))), ("values", .list (found.map (·.2)))]

/-- `key: value` -/
def keyValue : Handler := fun _ => Reading.answer do
  let key ← Reading.node "dict key"
  let value ← Reading.node "dict value"
  Reading.done
  return .pair key value

/-- `**mapping` in a dict display. -/
def dictUnpack : Handler := fun _ => Reading.answer do
  let mapping ← Reading.node "unpacked mapping"
  Reading.done
  return .unpack mapping

end TreeLowering.Lowering
