/-
# Lowered trees are well formed

The catalogue fixes how the slots of a node are named and nothing else; that a tree can
be accepted by a backend rests on the handlers. Each of them builds well-formed nodes
out of any nodes, and the steps that rebuild a finished node, as a target, with
decorators or in asynchronous form, keep what they found.
-/

import TreeLowering.Proofs.SchemaPreservation

namespace TreeLowering

open TreeLowering.Reduced

variable {options : Options}

/-- Well-formed nodes follow the schema. -/
theorem Node.Everywhere.followsSchema {n : Node} (h : n.Everywhere Node.WellFormed) :
    n.Everywhere Node.FollowsSchema :=
  fun m hm => (h m hm).map_fst_eq

/-- Steps keep nodes well formed. -/
theorem everywhere_wellFormed_of_apply {rule : Rule} {position : Position}
    {items : List Reduced} {result : Reduced}
    (hok : apply options rule position items = .ok result)
    (hitems : ∀ n ∈ rootsOf items, n.Everywhere Node.WellFormed) :
    ∀ n ∈ result.roots, n.Everywhere Node.WellFormed := by
  intro n hn
  have hschema : FollowSchema items := fun m hm => (hitems m hm).followsSchema
  have hgiven : ∀ m ∈ rootsOf items, Formed m.construct m.fields := fun m hm => (hitems m hm).self
  have hderived := (reduces_of_apply hschema hok).derived shapes_formed hgiven n hn
  exact hderived.everywhere hitems Node.bind_wellFormed fun hshape _ _ => hshape

theorem everywhere_wellFormed_of_reduce {tree : ParseTree} {result : Reduced}
    (h : reduce options tree = .ok result) : ∀ n ∈ result.roots, n.Everywhere Node.WellFormed :=
  roots_of_reduce (fun _ _ _ _ => everywhere_wellFormed_of_apply) h

/-- Every node at any depth of a tree that reduces is well formed. -/
theorem wellFormed_of_reduce (options : Options) (tree : ParseTree) {result : Reduced}
    (h : reduce options tree = .ok result) : ∀ n ∈ result.subtrees, n.WellFormed :=
  forall_subtrees_iff.mpr (everywhere_wellFormed_of_reduce h)

/-- The tree of `x < y` reduces, to a comparison of two names. -/
theorem wellFormed_of_reduce_comparison :
    ∃ result, reduce .default (.rule "comparison"
        [.rule "var" [.token ⟨"NAME", "x", .unknown⟩] .unknown,
          .rule "comp_op" [.token ⟨"LESSTHAN", "<", .unknown⟩] .unknown,
          .rule "var" [.token ⟨"NAME", "y", .unknown⟩] .unknown] .unknown) = .ok result ∧
      result.subtrees.length = 3 ∧ ∀ n ∈ result.subtrees, n.WellFormed :=
  ⟨_, rfl, rfl, wellFormed_of_reduce .default (.rule "comparison"
    [.rule "var" [.token ⟨"NAME", "x", .unknown⟩] .unknown,
      .rule "comp_op" [.token ⟨"LESSTHAN", "<", .unknown⟩] .unknown,
      .rule "var" [.token ⟨"NAME", "y", .unknown⟩] .unknown] .unknown) rfl⟩

end TreeLowering
