/-
# JSON values

The values that JSON text denotes. Members of an object keep their order and may repeat
a key, since a repeated key means different things to different readers. An integer
literal within 64 bits stays exact; any other number is the nearest binary64 number.
-/

import TreeLowering.Number.Binary64

namespace TreeLowering

open TreeLowering.Number

/-- A JSON value. -/
inductive Json where
  | null
  | bool (value : Bool)
  | integer (value : Int)
  | float (value : Binary64)
  | string (value : String)
  | array (items : List Json)
  | object (members : List (String × Json))

instance : Inhabited Json := ⟨.null⟩

namespace Json

/-- The values of all members with a given key, in order. -/
def valuesOf (key : String) (members : List (String × Json)) : List Json :=
  (members.filter (·.1 == key)).map (·.2)

/-- The value of a member that must not be repeated, if it is present. A repetition is
`none`. -/
def optionalMember? (key : String) (members : List (String × Json)) : Option (Option Json) :=
  match valuesOf key members with
  | [] => some none
  | [value] => some (some value)
  | _ => none

/-- The value of a member that must occur exactly once. -/
def member? (key : String) (members : List (String × Json)) : Option Json :=
  match valuesOf key members with
  | [value] => some value
  | _ => none

/-- The text of a string value. -/
def string? : Json → Option String
  | string value => some value
  | _ => none

/-- An unsigned integer of 64 bits, written as an integer literal. -/
def unsigned? : Json → Option Nat
  | integer value => if 0 ≤ value ∧ value < Int.pow 2 64 then some value.toNat else none
  | _ => none

end Json

end TreeLowering
