/-
# Source positions

The range of source text that a grammar reduction covers, as the grammar engine
reported it. No base is assumed for lines or columns and none is converted.
-/

namespace TreeLowering

/-- Start and end of a range by line and column. -/
structure Position where
  line : Nat
  column : Nat
  endLine : Nat
  endColumn : Nat
  deriving DecidableEq, Inhabited

namespace Position

/-- The position of something that has none. -/
def unknown : Position := ⟨0, 0, 0, 0⟩

/-- The range from the start of one position to the end of another. -/
def span (first last : Position) : Position :=
  ⟨first.line, first.column, last.endLine, last.endColumn⟩

/-- A position as it stands in a message: start and end joined by a dash. -/
def text (p : Position) : String :=
  s!"{p.line}:{p.column}-{p.endLine}:{p.endColumn}"

end Position

end TreeLowering
