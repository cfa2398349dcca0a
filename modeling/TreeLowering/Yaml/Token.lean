/-
# Tokens

What a document consists of once its lines and columns are gone: marks, properties and
scalars. Sequences and aliases have no tokens, because no document that denotes options
holds one.
-/

import TreeLowering.Yaml.Directive

namespace TreeLowering.Yaml

/-- A token. -/
inductive Token where
  | directive (directive : Directive)
  | documentStart
  | documentEnd
  /-- The start of a mapping in block style, which no character shows. -/
  | blockMappingStart
  /-- The end of a mapping in block style. -/
  | blockMappingEnd
  | flowMappingStart
  | flowMappingEnd
  /-- What separates entries in flow style. -/
  | flowEntry
  /-- The key of an entry follows. -/
  | key
  /-- The value of an entry follows. -/
  | value
  | anchor
  | tag (tag : Tag)
  | scalar (plain : Bool) (text : String)

/-- Whether a part of an entry that has not begun is left out before a token. -/
def Token.endsPart : Token → Bool
  | .key | .value | .blockMappingEnd | .flowMappingEnd | .flowEntry => true
  | _ => false

/-- Whether a token ends a document. -/
def Token.isDocumentEnd : Token → Bool
  | .documentEnd => true
  | _ => false

end TreeLowering.Yaml
