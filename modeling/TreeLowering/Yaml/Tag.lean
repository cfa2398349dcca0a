/-
# Tags and anchors

The properties that may stand before a node. A tag is written in full or shortened by a
handle that stands for its beginning. Tags are octets, because escapes in them can spell
octets that no text has.
-/

import TreeLowering.Number.Radix
import TreeLowering.Yaml.Glyph

namespace TreeLowering.Yaml

/-- The characters of names. -/
def isNameChar (c : Char) : Bool :=
  c.isAlphanum || c == '-' || c == '_'

/-! ## Octets -/

/-- The octet that two hexadecimal digits spell. -/
def octet? : List Glyph → Option Nat
  | a :: b :: _ => Number.natural? 16 [a.char, b.char]
  | _ => none

/-- The number of octets of the character that a first octet begins. -/
def octetCount? (octet : Nat) : Option Nat :=
  if octet < 0x80 then some 1
  else if 0xC0 ≤ octet ∧ octet < 0xE0 then some 2
  else if 0xE0 ≤ octet ∧ octet < 0xF0 then some 3
  else if 0xF0 ≤ octet ∧ octet < 0xF8 then some 4
  else none

/-- The octets that are still due after an escaped octet, when `due` were before it. -/
def dueAfter? (due octet : Nat) : Option Nat :=
  if due = 0 then (octetCount? octet).map (· - 1)
  else if 0x80 ≤ octet ∧ octet < 0xC0 then some (due - 1)
  else none

/-- The characters of a tag. Those that flow style uses belong to it only where the end
of the tag is marked. -/
def isTagChar (marked : Bool) (c : Char) : Bool :=
  isNameChar c || (marked && [',', '[', ']'].contains c) ||
    [';', '/', '?', ':', '@', '&', '=', '+', '$', '.', '!', '~', '*', '\'', '(', ')'].contains c

/-- The octets of a tag, latest first before those to come, and the text behind it. Some
glyphs belong to an escape that was already read, and `due` octets of its character
follow. -/
def octets? (marked : Bool) (read : List UInt8) (due : Nat) :
    Nat → List Glyph → Option (List UInt8 × List Glyph)
  | _, [] => if due = 0 then some (read.reverse, []) else none
  | skip + 1, _ :: rest => octets? marked read due skip rest
  | 0, g :: rest =>
    if g.char = '%' then
      match octet? rest with
      | none => none
      | some octet =>
        match dueAfter? due octet with
        | none => none
        | some due => octets? marked (octet.toUInt8 :: read) due 2 rest
    else if due ≠ 0 then none
    else if isTagChar marked g.char then octets? marked (g.char.toNat.toUInt8 :: read) 0 0 rest
    else some (read.reverse, g :: rest)

/-- The octets of a tag at the start of a text, of which there must be one, and the text
behind it. An octet of value zero cuts the tag off. -/
def tagText? (marked : Bool) (text : List Glyph) : Option (List UInt8 × List Glyph) :=
  match octets? marked [] 0 0 text with
  | some (octet :: octets, rest) => some ((octet :: octets).takeWhile (· != 0), rest)
  | _ => none

/-! ## Tags -/

/-- What stands for the beginning of a tag. -/
inductive Handle where
  /-- An exclamation mark. -/
  | primary
  /-- A name, which may be empty, between two exclamation marks. -/
  | named (name : List Char)
  deriving DecidableEq

/-- A tag as it is written. -/
inductive Tag where
  | full (octets : List UInt8)
  | short (handle : Handle) (octets : List UInt8)

/-- The tag that only says that there is one. -/
def Tag.bare : List UInt8 := [0x21]

/-- The beginnings of tags that handles stand for. -/
abbrev Handles := List (Handle × List UInt8)

/-- What handles stand for unless a document says otherwise: tags of its own, and those
of common types, of which the scheme that they begin with is enough to tell them from
the others. -/
def Handles.standard : Handles :=
  [(.primary, Tag.bare), (.named [], "tag:".toList.map (·.toNat.toUInt8))]

/-- The octets of a tag, if its handle stands for something. -/
def Tag.octets? (handles : Handles) : Tag → Option (List UInt8)
  | .full octets => some octets
  | .short handle octets => (handles.lookup handle).map (· ++ octets)

/-- A tag after its exclamation mark, and the text behind it. -/
def tag? (text : List Glyph) : Option (Tag × List Glyph) :=
  if startsWith '<' text then
    match tagText? true (text.drop 1) with
    | some (octets, rest) => if startsWith '>' rest then some (.full octets, rest.drop 1) else none
    | none => none
  else
    let afterName := text.dropWhile (isNameChar ·.char)
    if startsWith '!' afterName then
      let name := (text.takeWhile (isNameChar ·.char)).map Glyph.char
      (tagText? false (afterName.drop 1)).map fun (octets, rest) =>
        (.short (.named name) octets, rest)
    else
      (octets? false [] 0 0 text).map fun (octets, rest) =>
        match octets.takeWhile (· != 0) with
        | [] => (.full Tag.bare, rest)
        | octets => (.short .primary octets, rest)

/-! ## Anchors -/

/-- The characters other than white space that end an anchor. -/
def isAnchorEnd (c : Char) : Bool :=
  ['?', ':', ',', ']', '\x7d', '%', '@', '\x60'].contains c

/-- The text behind an anchor, after its ampersand. Nothing refers to an anchor, so its
name is not kept. -/
def afterAnchor? (text : List Glyph) : Option (List Glyph) :=
  let rest := text.dropWhile (isNameChar ·.char)
  if rest.length < text.length && (atGap rest || rest.head?.any (isAnchorEnd ·.char)) then
    some rest
  else none

end TreeLowering.Yaml
