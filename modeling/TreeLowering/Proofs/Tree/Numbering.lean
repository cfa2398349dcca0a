/-
# Trees with distinct ranges

A tree may leave ranges unknown or give one range to several branches, and then a range
does not tell which branch a node was built for. Numbering the branches gives each of them
a range of its own and changes nothing else.
-/

import Mathlib.Data.List.Nodup
import TreeLowering.Proofs.Tree.Branches

namespace TreeLowering

/-- The line that a number stands for. -/
def Position.ofNumber (k : Nat) : Position :=
  ⟨k, 1, k, 1⟩

namespace ParseTree

/-- Whether no two branches have the same range. -/
def Separate (tree : ParseTree) : Prop :=
  (tree.branches.map (·.position)).Nodup

/-- The branches of a separate tree are told apart by their ranges. -/
theorem Separate.eq_of_position_eq {tree : ParseTree} (h : tree.Separate) {b c : Branch}
    (hb : b ∈ tree.branches) (hc : c ∈ tree.branches) (hsame : b.position = c.position) : b = c :=
  List.inj_on_of_nodup_map h hb hc hsame

mutual

/-- A tree with its branches numbered in the order of a reduction. -/
def numbered : Nat → ParseTree → ParseTree
  | k, .rule name children _ =>
      .rule name (numberedAll k children) (.ofNumber (k + (branchesOf children).length))
  | _, .token t => .token t
  | _, .absent => .absent

/-- Trees with their branches numbered, from left to right. -/
def numberedAll : Nat → List ParseTree → List ParseTree
  | _, [] => []
  | k, tree :: rest => numbered k tree :: numberedAll (k + tree.branches.length) rest

end

mutual

/-- The lines of the branches are their numbers. -/
theorem lines_numbered : ∀ (k : Nat) (tree : ParseTree),
    (numbered k tree).branches.map (·.position.line) = List.range' k tree.branches.length
  | k, .rule name children position => by
      rw [numbered, branches, List.map_append, lines_numberedAll k children, branches,
        List.length_append, List.length_singleton, List.range'_1_concat]
      rfl
  | _, .token _ => rfl
  | _, .absent => rfl

theorem lines_numberedAll : ∀ (k : Nat) (trees : List ParseTree),
    (branchesOf (numberedAll k trees)).map (·.position.line) =
      List.range' k (branchesOf trees).length
  | _, [] => rfl
  | k, tree :: rest => by
      rw [numberedAll, branchesOf, List.map_append, lines_numbered k tree,
        lines_numberedAll _ rest, branchesOf, List.length_append, List.range'_append_1]

end

theorem separate_numbered (k : Nat) (tree : ParseTree) : (tree.numbered k).Separate := by
  apply List.Nodup.of_map Position.line
  rw [List.map_map]
  exact lines_numbered k tree ▸ List.nodup_range'

end ParseTree

end TreeLowering
