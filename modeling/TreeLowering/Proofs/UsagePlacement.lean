/-
# Usages stand in their places

A handler hands on nodes that are read, whatever they are built from, and binds a node in
the one step that puts it in the place of a target. So a node is bound at most once on
its way up, and each usage in a lowered tree is the one that its place calls for.
-/

import TreeLowering.Proofs.Wellformedness

namespace TreeLowering

open TreeLowering.Reduced

variable {options : Options}

/-- The invariant of the nodes at the top of a reduced value: they are read, and inside
them every usage stands in its place. -/
structure Node.Unbound (n : Node) : Prop where
  wellFormed : n.Everywhere Node.WellFormed
  reads : n.HasUsage .read
  places : n.Everywhere Node.PlacesUsage

/-- Steps hand on nodes that are read. -/
theorem unbound_of_apply {rule : Rule} {position : Position} {items : List Reduced}
    {result : Reduced} (hok : apply options rule position items = .ok result)
    (hitems : ∀ n ∈ rootsOf items, n.Unbound) : ∀ n ∈ result.roots, n.Unbound := by
  intro n hn
  have hformed : ∀ m ∈ rootsOf items, m.Everywhere Node.WellFormed :=
    fun m hm => (hitems m hm).wellFormed
  have hschema : FollowSchema items := fun m hm => (hformed m hm).followsSchema
  have hgiven : ∀ m ∈ rootsOf items, Formed m.construct m.fields := fun m hm => (hformed m hm).self
  have hderived := (reduces_of_apply hschema hok).derived shapes_formed hgiven n hn
  obtain ⟨hreads, hplaces⟩ := hderived.placesUsage hformed (fun m hm => (hitems m hm).reads)
    fun m hm => (hitems m hm).places
  exact ⟨everywhere_wellFormed_of_apply hok hformed n hn, hreads, hplaces⟩

/-- In a tree that reduces, the nodes at the top are read, and every node at any depth has
in each slot the usage that the slot calls for. -/
theorem placesUsage_of_reduce (options : Options) (tree : ParseTree) {result : Reduced}
    (h : reduce options tree = .ok result) :
    (∀ n ∈ result.roots, n.HasUsage .read) ∧ ∀ n ∈ result.subtrees, n.PlacesUsage := by
  have hunbound : ∀ n ∈ result.roots, n.Unbound :=
    roots_of_reduce (fun _ _ _ _ => unbound_of_apply) h
  exact ⟨fun n hn => (hunbound n hn).reads,
    forall_subtrees_iff.mpr fun n hn => (hunbound n hn).places⟩

/-- The tree of `[x.a] = y` reduces, to an assignment that reads `x` and writes `x.a`. -/
theorem placesUsage_of_reduce_assignment :
    ∃ result, reduce .default (.rule "assign_stmt"
        [.rule "list" [.rule "getattr" [.rule "var" [.token ⟨"NAME", "x", .unknown⟩] .unknown,
            .token ⟨"NAME", "a", .unknown⟩] .unknown] .unknown,
          .rule "var" [.token ⟨"NAME", "y", .unknown⟩] .unknown] .unknown) = .ok result ∧
      result.subtrees.map Node.usage? =
        [none, some .write, some .write, some .read, some .read] ∧
      (∀ n ∈ result.roots, n.HasUsage .read) ∧ ∀ n ∈ result.subtrees, n.PlacesUsage :=
  ⟨_, rfl, rfl, placesUsage_of_reduce .default (.rule "assign_stmt"
    [.rule "list" [.rule "getattr" [.rule "var" [.token ⟨"NAME", "x", .unknown⟩] .unknown,
        .token ⟨"NAME", "a", .unknown⟩] .unknown] .unknown,
      .rule "var" [.token ⟨"NAME", "y", .unknown⟩] .unknown] .unknown) rfl⟩

end TreeLowering
