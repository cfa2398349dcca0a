/-
# Matched spans

Parse trees from the spans that a grammar matched in a source text. A rule named in
capitals is a token, and a span of a rule in small letters that matched nothing inside
keeps its own text as a token, so that no matched text is lost. Lines and columns count
from one; only a line feed, alone or after a carriage return, ends a line.
-/

import TreeLowering.Grammar.Tree
import TreeLowering.Text.Capital
import TreeLowering.Text.Letters

namespace TreeLowering

/-- A rule and the span of source characters it matched, with the matches inside. -/
inductive Match where
  | mk (rule : String) (start stop : Nat) (inner : List Match)

/-- Line and column after the characters of a text that begins at a given place. -/
def advance (line column : Nat) : List Char → Nat × Nat
  | [] => (line, column)
  | '\r' :: '\n' :: rest => advance (line + 1) 1 rest
  | '\n' :: rest => advance (line + 1) 1 rest
  | _ :: rest => advance line (column + 1) rest

/-- Line and column of an offset. They depend on the text before it alone, so a carriage
return whose line feed lies behind the offset counts as a character. -/
def lineColumn (source : List Char) (offset : Nat) : Nat × Nat :=
  advance 1 1 (source.take offset)

/-- The position of a span. -/
def spanPosition (source : List Char) (start stop : Nat) : Position :=
  let (line, column) := lineColumn source start
  let (endLine, endColumn) := lineColumn source stop
  ⟨line, column, endLine, endColumn⟩

/-- The text of a span. -/
def spanText (source : List Char) (start stop : Nat) : String :=
  String.ofList ((source.take stop).drop start)

/-- The rule whose matches stand for an empty optional part. -/
def absentRule : String := "absent"

namespace Match

mutual

/-- The parse tree of a match. -/
def toTree (source : List Char) : Match → ParseTree
  | .mk rule start stop inner =>
    if rule = absentRule then .absent
    else
      let position := spanPosition source start stop
      let text := spanText source start stop
      match inner with
      | [] =>
        if Text.isCapitalized rule then .token ⟨rule, text, position⟩
        else if text.isEmpty then .rule rule [] position
        else .rule rule [.token ⟨Text.capitalize rule, text, position⟩] position
      | _ :: _ => .rule rule (toTrees source inner) position

/-- The parse trees of a list of matches. -/
def toTrees (source : List Char) : List Match → List ParseTree
  | [] => []
  | m :: rest => toTree source m :: toTrees source rest

end

end Match

end TreeLowering
