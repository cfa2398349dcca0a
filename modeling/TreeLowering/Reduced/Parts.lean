/-
# Parts of a reduction

Access to single parts of a reduction by what is expected in their place. A failure
names the expectation and describes what stood there instead.
-/

import TreeLowering.Error
import TreeLowering.Reduced.Basic

namespace TreeLowering.Reduced

/-- A failure for a part other than the one expected. -/
def unexpected (what : String) (item : Option Reduced) : Error :=
  .shape what (describe? item)

/-- A node that must be present. -/
def expectNode (what : String) : Option Reduced → Except Error Node
  | some (.node n) => .ok n
  | item => .error (unexpected what item)

/-- A node in an optional place, where a placeholder stands for a missing one. -/
def optionalNode (what : String) : Option Reduced → Except Error (Option Node)
  | none => .ok none
  | some .absent => .ok none
  | some (.node n) => .ok (some n)
  | item => .error (unexpected what item)

/-- The identifier of a name node. -/
def nameText (what : String) (n : Node) : Except Error String :=
  if n.construct = .name then
    match (n.get? "id").bind Value.text? with
    | some id => .ok id
    | none => .error (.shape what "name without identifier")
  else .error (unexpected what (some (.node n)))

/-- An identifier: the text of a token or of a name. -/
def identifier (what : String) : Option Reduced → Except Error String
  | some (.token t) => .ok t.text
  | some (.node n) => nameText what n
  | item => .error (unexpected what item)

/-- An identifier in an optional place. -/
def optionalIdentifier (what : String) : Option Reduced → Except Error (Option String)
  | none => .ok none
  | some .absent => .ok none
  | item => (identifier what item).map some

/-- Nothing may be left over. -/
def noMore : List Reduced → Except Error Unit
  | [] => .ok ()
  | extra :: _ => .error (.shape "no further children" extra.describe)

/-- Nothing but tokens may occur. -/
def onlyTokens (what : String) (items : List Reduced) : Except Error Unit :=
  match items.find? fun item => !item.isToken with
  | none => .ok ()
  | some extra => .error (.shape what extra.describe)

end TreeLowering.Reduced
