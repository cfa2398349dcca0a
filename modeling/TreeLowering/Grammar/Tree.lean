/-
# Parse trees

What a grammar engine hands over: rule branches with the range they cover, tokens, and
placeholders for optional parts that were left empty.
-/

import TreeLowering.Position

namespace TreeLowering

/-- A terminal of the grammar. -/
structure Token where
  /-- The lexical class, possibly behind a namespace as in `base__HEX_NUMBER`. -/
  kind : String
  text : String
  position : Position
  deriving DecidableEq

/-- The characters before the first double underscore, or all of them. -/
def beforeSeparator : List Char → List Char
  | [] => []
  | '_' :: '_' :: _ => []
  | c :: rest => c :: beforeSeparator rest

/-- The lexical class without its namespace: what follows the last double underscore. -/
def Token.lexicalClass (token : Token) : String :=
  String.ofList (beforeSeparator token.kind.toList.reverse).reverse

/-- A parse tree. -/
inductive ParseTree where
  | rule (name : String) (children : List ParseTree) (position : Position)
  | token (token : Token)
  | absent

end TreeLowering
