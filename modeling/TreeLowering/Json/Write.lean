/-
# Writing JSON

Two written forms of a value: one line without blanks, and indented lines. Each writer
puts its text in front of a given rest, so the text of a container is the texts of its
contents in order and nothing is copied. Strings escape quotes, backslashes and control
characters only.
-/

import TreeLowering.Json.Value
import TreeLowering.Number.Shortest

namespace TreeLowering.Json

open TreeLowering.Number

/-- A hexadecimal digit in small letters. -/
def hexDigit (n : Nat) : Char :=
  Nat.digitChar n

/-- A character inside a quoted string. -/
def writeChar (c : Char) (rest : List Char) : List Char :=
  if c = '"' then '\\' :: '"' :: rest
  else if c = '\\' then '\\' :: '\\' :: rest
  else if c = '\x08' then '\\' :: 'b' :: rest
  else if c = '\x0c' then '\\' :: 'f' :: rest
  else if c = '\n' then '\\' :: 'n' :: rest
  else if c = '\r' then '\\' :: 'r' :: rest
  else if c = '\t' then '\\' :: 't' :: rest
  else if c.toNat < 0x20 then
    '\\' :: 'u' :: '0' :: '0' :: hexDigit (c.toNat / 16) :: hexDigit (c.toNat % 16) :: rest
  else c :: rest

/-- A quoted string. -/
def writeString (text : String) (rest : List Char) : List Char :=
  '"' :: text.toList.foldr writeChar ('"' :: rest)

/-- A value without inner structure; containers are left to the two forms. -/
def writeScalar (value : Json) (rest : List Char) : List Char :=
  match value with
  | .null => 'n' :: 'u' :: 'l' :: 'l' :: rest
  | .bool true => 't' :: 'r' :: 'u' :: 'e' :: rest
  | .bool false => 'f' :: 'a' :: 'l' :: 's' :: 'e' :: rest
  | .integer n => decimalText n ++ rest
  | .float x => x.text ++ rest
  | .string text => writeString text rest
  | _ => rest

mutual

/-- A value on one line. -/
def write (rest : List Char) : Json → List Char
  | .array [] => '[' :: ']' :: rest
  | .array (item :: items) => '[' :: write (writeItems rest items) item
  | .object [] => '\x7b' :: '\x7d' :: rest
  | .object ((key, value) :: members) =>
    '\x7b' :: writeString key (':' :: write (writeMembers rest members) value)
  | value => writeScalar value rest

/-- The items after the first, and the end of the array. -/
def writeItems (rest : List Char) : List Json → List Char
  | [] => ']' :: rest
  | item :: items => ',' :: write (writeItems rest items) item

/-- The members after the first, and the end of the object. -/
def writeMembers (rest : List Char) : List (String × Json) → List Char
  | [] => '\x7d' :: rest
  | (key, value) :: members =>
    ',' :: writeString key (':' :: write (writeMembers rest members) value)

end

/-- A line break and two blanks for each level of nesting. -/
def writeLine (level : Nat) (rest : List Char) : List Char :=
  '\n' :: (List.replicate (2 * level) ' ' ++ rest)

mutual

/-- A value on indented lines, inside `level` containers. -/
def writeIndented (level : Nat) (rest : List Char) : Json → List Char
  | .array [] => '[' :: ']' :: rest
  | .array (item :: items) =>
    '[' :: writeLine (level + 1)
      (writeIndented (level + 1) (writeItemLines level rest items) item)
  | .object [] => '\x7b' :: '\x7d' :: rest
  | .object ((key, value) :: members) =>
    '\x7b' :: writeLine (level + 1) (writeString key
      (':' :: ' ' :: writeIndented (level + 1) (writeMemberLines level rest members) value))
  | value => writeScalar value rest

/-- The items after the first, and the end of the array. -/
def writeItemLines (level : Nat) (rest : List Char) : List Json → List Char
  | [] => writeLine level (']' :: rest)
  | item :: items =>
    ',' :: writeLine (level + 1)
      (writeIndented (level + 1) (writeItemLines level rest items) item)

/-- The members after the first, and the end of the object. -/
def writeMemberLines (level : Nat) (rest : List Char) : List (String × Json) → List Char
  | [] => writeLine level ('\x7d' :: rest)
  | (key, value) :: members =>
    ',' :: writeLine (level + 1) (writeString key
      (':' :: ' ' :: writeIndented (level + 1) (writeMemberLines level rest members) value))

end

/-- A value on one line without blanks. -/
def compact (value : Json) : String :=
  String.ofList (write [] value)

/-- A value on indented lines. -/
def pretty (value : Json) : String :=
  String.ofList (writeIndented 0 [] value)

end TreeLowering.Json
