/-
# Branches of a parse tree

The branches of a tree in the order in which a reduction from the leaves comes to them:
the children of a branch from left to right, and then the branch itself.
-/

import TreeLowering.Grammar.Tree

namespace TreeLowering

/-- A rule with its children and the range that it covers. -/
structure Branch where
  name : String
  children : List ParseTree
  position : Position

/-- The tree that a branch is. -/
def Branch.tree (b : Branch) : ParseTree :=
  .rule b.name b.children b.position

namespace ParseTree

mutual

/-- The branches of a tree, each one behind those beneath it. -/
def branches : ParseTree → List Branch
  | .rule name children position => branchesOf children ++ [⟨name, children, position⟩]
  | .token _ => []
  | .absent => []

/-- The branches of trees, from left to right. -/
def branchesOf : List ParseTree → List Branch
  | [] => []
  | tree :: rest => branches tree ++ branchesOf rest

end

@[simp]
theorem branchesOf_append (first rest : List ParseTree) :
    branchesOf (first ++ rest) = branchesOf first ++ branchesOf rest := by
  induction first with
  | nil => rfl
  | cons tree others ih => simp [branchesOf, ih]

theorem mem_branchesOf {trees : List ParseTree} {b : Branch} :
    b ∈ branchesOf trees ↔ ∃ tree ∈ trees, b ∈ tree.branches := by
  induction trees with
  | nil => simp [branchesOf]
  | cons tree rest ih => simp [branchesOf, ih]

/-- A branch of a branch is a branch of one of its children, or the branch itself. -/
theorem mem_branches_rule {name : String} {children : List ParseTree} {position : Position}
    {b : Branch} : b ∈ (ParseTree.rule name children position).branches ↔
      (∃ child ∈ children, b ∈ child.branches) ∨ b = ⟨name, children, position⟩ := by
  rw [branches, List.mem_append, mem_branchesOf, List.mem_singleton]

end ParseTree

end TreeLowering
