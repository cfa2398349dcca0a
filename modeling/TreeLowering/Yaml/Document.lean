/-
# Documents

The nodes of a text that can denote options: nothing, or a mapping with at most one
entry whose key and value are scalars. Every other text is refused, whether it has
another meaning or none.
-/

import TreeLowering.Yaml.Token.Lexer

namespace TreeLowering.Yaml

/-- A scalar with the octets of its tag. -/
structure Scalar where
  tag : Option (List UInt8)
  plain : Bool
  text : String

/-- The scalar of a part that was left out. -/
def Scalar.empty : Scalar := ⟨none, true, ""⟩

/-- The name of a tag that belongs to the document alone, if it is a text. -/
def Scalar.localTag? (scalar : Scalar) : Option String :=
  match scalar.tag with
  | none | some [] => none
  | some (octet :: name) =>
    if octet = 0x21 then
      String.fromUTF8? ⟨(if name.isEmpty then [octet] else name).toArray⟩
    else none

/-- Whether a scalar is one of the ways to write that there is no value. -/
def Scalar.isNull (scalar : Scalar) : Bool :=
  scalar.plain && ["", "~", "null", "Null", "NULL"].contains scalar.text

/-- A document. -/
inductive Document where
  | empty
  | mapping (entry : Option (Scalar × Scalar))

/-! ## Nodes -/

/-- The properties of a node. Of an anchor it matters only that it is there. -/
structure Properties where
  present : Bool
  tag : Option (List UInt8)

/-- The properties before a node, in either order. -/
def properties? (handles : Handles) : List Token → Option (Properties × List Token)
  | .anchor :: .tag tag :: rest | .tag tag :: .anchor :: rest | .tag tag :: rest =>
    (tag.octets? handles).map fun octets => (⟨true, some octets⟩, rest)
  | .anchor :: rest => some (⟨true, none⟩, rest)
  | rest => some (⟨false, none⟩, rest)

/-- A scalar. The bare tag says nothing about a scalar that is written out. -/
def scalar? (handles : Handles) (tokens : List Token) : Option (Scalar × List Token) := do
  let (properties, rest) ← properties? handles tokens
  match rest with
  | .scalar plain text :: rest =>
    return (⟨properties.tag.filter (· != Tag.bare), plain, text⟩, rest)
  | rest => if properties.present then return (⟨properties.tag, true, ""⟩, rest) else none

/-- A part of an entry, which may be left out. -/
def part? (handles : Handles) (tokens : List Token) : Option (Scalar × List Token) :=
  if tokens.head?.any Token.endsPart then some (.empty, tokens) else scalar? handles tokens

/-- An entry. -/
def entry? (handles : Handles) : List Token → Option ((Scalar × Scalar) × List Token)
  | .key :: rest => do
    let (key, rest) ← part? handles rest
    match rest with
    | .value :: rest =>
      let (value, rest) ← part? handles rest
      return ((key, value), rest)
    | rest => return ((key, .empty), rest)
  | _ => none

/-- The node of a document. In flow style a separator may stand behind the entry. -/
def node? (handles : Handles) (tokens : List Token) : Option (Document × List Token) := do
  let (properties, rest) ← properties? handles tokens
  match rest with
  | .blockMappingStart :: rest =>
    match ← entry? handles rest with
    | (entry, .blockMappingEnd :: rest) => return (.mapping (some entry), rest)
    | _ => none
  | .flowMappingStart :: .flowMappingEnd :: rest => return (.mapping none, rest)
  | .flowMappingStart :: rest =>
    match ← entry? handles rest with
    | (entry, .flowMappingEnd :: rest) | (entry, .flowEntry :: .flowMappingEnd :: rest) =>
      return (.mapping (some entry), rest)
    | _ => none
  | .scalar .. :: _ => none
  | rest => if properties.present then return (.empty, rest) else none

/-! ## Directives -/

/-- What the directives before a document say. -/
structure Prologue where
  versioned : Bool
  handles : Handles

/-- The directives at the start of tokens, after others. The version is 1.1 or 1.2, and
nothing is said twice. -/
def prologue? (prologue : Prologue) : List Token → Option (Prologue × List Token)
  | .directive (.version major minor) :: rest =>
    if prologue.versioned || major != 1 || (minor != 1 && minor != 2) then none
    else prologue? { prologue with versioned := true } rest
  | .directive (.handle handle beginning) :: rest =>
    if (prologue.handles.lookup handle).isSome then none
    else prologue? { prologue with handles := (handle, beginning) :: prologue.handles } rest
  | rest => some (prologue, rest)

namespace Document

/-- The document that tokens spell. Nothing but end markers follows it, and only after
a start marker may its node be left out before them. -/
def ofTokens? (tokens : List Token) : Option Document := do
  match ← prologue? ⟨false, []⟩ tokens with
  | (_, []) => if tokens.isEmpty then return .empty else none
  | (prologue, .documentStart :: rest) =>
    if rest.all Token.isDocumentEnd then return .empty
    else content? (prologue.handles ++ Handles.standard) rest
  | (_, _) => content? Handles.standard tokens
where
  content? (handles : Handles) (tokens : List Token) : Option Document := do
    let (document, rest) ← node? handles tokens
    if rest.all Token.isDocumentEnd then return document else none

/-- The document that a text is. -/
def ofText? (text : String) : Option Document := do
  ofTokens? (← Token.ofGlyphs? (← Glyph.ofText? text))

end Document

end TreeLowering.Yaml
