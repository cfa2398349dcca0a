/-
# Source ranges

Source ranges by their two ends, each a line and a column within it. What a grammar engine
says about the ranges of a parse tree is stated of its branches: those of the children lie
within that of the branch, and do not overlap.
-/

import Mathlib.Data.Prod.Lex
import TreeLowering.Proofs.Tree.Branches

namespace TreeLowering

namespace Position

/-- Where a range starts, by line and then by column. -/
def start (p : Position) : ℕ ×ₗ ℕ :=
  toLex (p.line, p.column)

/-- Where a range ends, by line and then by column. -/
def stop (p : Position) : ℕ ×ₗ ℕ :=
  toLex (p.endLine, p.endColumn)

/-- A range is one that is known and does not end before it starts. -/
def Proper (p : Position) : Prop :=
  p ≠ unknown ∧ p.start ≤ p.stop

/-- A range contains another one. -/
def Covers (outer inner : Position) : Prop :=
  outer.start ≤ inner.start ∧ inner.stop ≤ outer.stop

instance (p : Position) : Decidable p.Proper :=
  inferInstanceAs (Decidable (_ ∧ _))

instance (outer inner : Position) : Decidable (outer.Covers inner) :=
  inferInstanceAs (Decidable (_ ∧ _))

variable {outer middle inner p : Position}

theorem Covers.refl (p : Position) : p.Covers p := ⟨le_rfl, le_rfl⟩

theorem Covers.trans (h : outer.Covers middle) (h' : middle.Covers inner) : outer.Covers inner :=
  ⟨h.1.trans h'.1, h'.2.trans h.2⟩

/-- The range from the start of one part of a range to the end of another lies within it. -/
theorem Covers.span {first last : Position} (h : outer.Covers first) (h' : outer.Covers last) :
    outer.Covers (first.span last) :=
  ⟨h.1, h'.2⟩

/-- A proper range ends behind the place of the unknown one. -/
theorem Proper.not_stop_le_unknown (h : p.Proper) : ¬ p.stop ≤ unknown.stop := by
  obtain ⟨hknown, hforward⟩ := h
  intro hstop
  have hstart := hforward.trans hstop
  obtain ⟨line, column, endLine, endColumn⟩ := p
  simp only [start, stop, unknown, Prod.Lex.toLex_le_toLex] at hstart hstop
  simp only [unknown, ne_eq, mk.injEq] at hknown
  omega

end Position

namespace ParseTree

/-- The range that a tree has in the source. A token without a position has none. -/
def range? : ParseTree → Option Position
  | .rule _ _ position => some position
  | .token t => if t.position = .unknown then none else some t.position
  | .absent => none

/-- The token that a tree is. -/
def leaf? : ParseTree → Option Token
  | .token t => some t
  | _ => none

/-- The ranges of the children of each branch lie within that of the branch. -/
def Nested (tree : ParseTree) : Prop :=
  ∀ b ∈ tree.branches, ∀ child ∈ b.children, ∀ range ∈ child.range?, b.position.Covers range

instance (tree : ParseTree) : Decidable tree.Nested :=
  inferInstanceAs (Decidable (∀ b ∈ tree.branches, ∀ child ∈ b.children, ∀ range ∈ child.range?,
    b.position.Covers range))

/-- The ranges in a tree are nested, those of the children of each branch follow one another
without overlap, and every token has one that is proper. -/
structure LaidOut (tree : ParseTree) : Prop where
  nested : tree.Nested
  tokens : ∀ b ∈ tree.branches, ∀ child ∈ b.children, ∀ t ∈ child.leaf?, t.position.Proper
  ordered : ∀ b ∈ tree.branches, b.children.Pairwise fun child later =>
    ∀ range ∈ child.range?, ∀ other ∈ later.range?, range.stop ≤ other.start

end ParseTree

end TreeLowering
