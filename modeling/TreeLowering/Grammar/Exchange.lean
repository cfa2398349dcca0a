/-
# Exchange format of parse trees

The JSON form in which parse trees travel. A tree is an object tagged by its `type`, or
an array that begins with the tag and gives the parts in order. Unknown keys are
ignored, and a key that a form knows may occur once only. Below the root the tag may
also be the number of the form. Reading is strict: any violation denotes no tree.
-/

import TreeLowering.Grammar.Tree
import TreeLowering.Json.Read
import TreeLowering.Json.Write

namespace TreeLowering

/-- A position as an object. -/
def Position.toJson (p : Position) : Json :=
  .object [("line", .integer p.line), ("column", .integer p.column),
    ("end_line", .integer p.endLine), ("end_column", .integer p.endColumn)]

/-- A position from an object with all four keys or an array of four numbers. -/
def Position.ofJson? : Json → Option Position
  | .object members => do
    let line ← (← Json.member? "line" members).unsigned?
    let column ← (← Json.member? "column" members).unsigned?
    let endLine ← (← Json.member? "end_line" members).unsigned?
    let endColumn ← (← Json.member? "end_column" members).unsigned?
    return ⟨line, column, endLine, endColumn⟩
  | .array [line, column, endLine, endColumn] => do
    return ⟨← line.unsigned?, ← column.unsigned?, ← endLine.unsigned?, ← endColumn.unsigned?⟩
  | _ => none

namespace ParseTree

mutual

/-- A tree as an object. -/
def toJson : ParseTree → Json
  | .rule name children position =>
    .object [("type", .string "rule"), ("rule", .string name),
      ("children", .array (toJsonList children)), ("position", position.toJson)]
  | .token t =>
    .object [("type", .string "token"), ("kind", .string t.kind), ("text", .string t.text),
      ("position", t.position.toJson)]
  | .absent => .object [("type", .string "absent")]

/-- The objects of a list of trees. -/
def toJsonList : List ParseTree → List Json
  | [] => []
  | tree :: rest => toJson tree :: toJsonList rest

end

/-- The three forms of a tree. -/
inductive Form where
  | rule
  | token
  | absent
  deriving DecidableEq

/-- The form that a tag names. Numbers are tags only below the root. -/
def Form.ofTag? (atRoot : Bool) : Json → Option Form
  | .string tag =>
    if tag = "rule" then some .rule
    else if tag = "token" then some .token
    else if tag = "absent" then some .absent
    else none
  | .integer n =>
    if atRoot then none
    else if n = 0 then some .rule
    else if n = 1 then some .token
    else if n = 2 then some .absent
    else none
  | _ => none

/-- A token from its kind, its text and, unless it is missing, its position. -/
def token? (kind text : Json) (position : Option Json) : Option ParseTree := do
  let kind ← kind.string?
  let text ← text.string?
  match position with
  | none => return .token ⟨kind, text, .unknown⟩
  | some p => return .token ⟨kind, text, ← Position.ofJson? p⟩

/-- A token from the members of its object. -/
def tokenOfMembers? (members : List (String × Json)) : Option ParseTree := do
  let kind ← Json.member? "kind" members
  let text ← Json.member? "text" members
  token? kind text (← Json.optionalMember? "position" members)

mutual

/-- The tree that a value denotes. -/
def ofJson? (atRoot : Bool) : Json → Option ParseTree
  | .object members =>
    match (Json.member? "type" members).bind (Form.ofTag? atRoot) with
    | some .rule => do
      let name ← (← Json.member? "rule" members).string?
      let position ← Position.ofJson? (← Json.member? "position" members)
      let _ ← Json.member? "children" members
      return .rule name (← childrenOfMembers? members) position
    | some .token => tokenOfMembers? members
    | some .absent => some .absent
    | none => none
  | .array (tag :: parts) =>
    match Form.ofTag? atRoot tag, parts with
    | some .rule, [name, .array children, position] => do
      let name ← name.string?
      let position ← Position.ofJson? position
      return .rule name (← ofJsonList? children) position
    | some .token, [kind, text] => token? kind text none
    | some .token, [kind, text, position] => token? kind text (some position)
    | some .absent, [] => some .absent
    | _, _ => none
  | _ => none

/-- The trees below the first member with the key `children`. -/
def childrenOfMembers? : List (String × Json) → Option (List ParseTree)
  | [] => none
  | (key, value) :: rest =>
    if key = "children" then
      match value with
      | .array children => ofJsonList? children
      | _ => none
    else childrenOfMembers? rest

/-- The trees that a list of values below the root denotes. -/
def ofJsonList? : List Json → Option (List ParseTree)
  | [] => some []
  | value :: rest => do
    let tree ← ofJson? false value
    return tree :: (← ofJsonList? rest)

end

/-- The nesting of containers that a text may have. -/
def nestingLimit : Nat := 127

/-- The tree that a JSON text denotes. -/
def parse? (text : String) : Option ParseTree :=
  (Json.parse? (some nestingLimit) text).bind (ofJson? true)

end ParseTree

end TreeLowering
