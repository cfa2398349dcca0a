/-
# Nodes lie in the ranges they come from

A node takes its range from the event that builds it, from the clause or from the steps of
a chain that it is made of, or keeps the one it had. All of these lie within the range of
the event, if the ranges of the tree are nested. So no node lies outside of the branch that
it comes from, however far it travels before it is put in its place.
-/

import TreeLowering.Proofs.Tree.Range
import TreeLowering.Proofs.Wellformedness

namespace TreeLowering

open TreeLowering.Lowering TreeLowering.Reduced

variable {options : Options} {r : Reduction} {items : List Reduced} {item result : Reduced}
  {outer inner position : Position}

/-! ## Steps -/

/-- All that a part brings along lies within a range: its nodes at every depth, a token that
has a position, and the clause that a conditional will be made of. -/
structure Reduced.Inside (outer : Position) (item : Reduced) : Prop where
  nodes : ∀ n ∈ item.roots, n.Everywhere fun m => outer.Covers m.position
  token : ∀ t, item = .token t → t.position = .unknown ∨ outer.Covers t.position
  clause : ∀ test body position, item = .clause (.elif test body position) →
    outer.Covers position

theorem Reduced.Inside.mono (h : item.Inside inner) (houter : outer.Covers inner) :
    item.Inside outer where
  nodes n hn m hm := houter.trans (h.nodes n hn m hm)
  token t ht := (h.token t ht).imp_right houter.trans
  clause test body position hclause := houter.trans (h.clause test body position hclause)

/-- A step of a chain has no position, or one within the range of the chain. -/
theorem covers_of_chainStep {attr : String} {step : Position} (hitem : item.Inside outer)
    (h : chainStep item = .ok (attr, step)) : step = .unknown ∨ outer.Covers step := by
  rw [chainStep.eq_def] at h
  split at h
  · rename_i t
    cases h
    exact hitem.token t rfl
  · rename_i n
    split at h <;> cases h
    exact .inr (hitem.nodes n List.mem_cons_self).self
  · cases h

/-- Wherever a reduction places a node, it does so within the range of the event. -/
theorem Places.covers {construct : Construct} (hitems : ∀ item ∈ items, item.Inside r.position)
    (h : Places r items construct position) : r.position.Covers position := by
  have hgiven : ∀ n ∈ rootsOf items, r.position.Covers n.position := by
    intro n hn
    obtain ⟨item, hitem, hroot⟩ := mem_rootsOf.mp hn
    exact ((hitems item hitem).nodes n hroot).self
  cases h with
  | event => exact .refl _
  | clause rule member => exact (hitems _ member).clause _ _ _ rfl
  | @link base item attr step rule given member taken isLast =>
      have hbase := hgiven base given
      rw [linkPosition]
      split
      · exact .refl _
      · split
        · exact hbase.span (.refl _)
        · rename_i hknown
          exact hbase.span ((covers_of_chainStep (hitems item member) taken).resolve_left hknown)
  | definition rule given => exact hgiven _ given

/-- A step keeps all that it hands on within its own range. -/
theorem inside_of_apply {rule : Rule} (hok : apply options rule position items = .ok result)
    (hformed : ∀ n ∈ rootsOf items, n.Everywhere Node.WellFormed)
    (hitems : ∀ item ∈ items, item.Inside position) : result.Inside position := by
  have hschema : FollowSchema items := fun n hn => (hformed n hn).followsSchema
  have hreduces := reduces_of_apply hschema hok
  refine ⟨fun n hn => ?_, ?_, ?_⟩
  · have hderived := hreduces.derived shapes_formed (fun m hm => (hformed m hm).self) n hn
    refine hderived.everywhere_of_outline hformed (fun m hm => ?_) (fun houtline h => ?_) ?_
    · obtain ⟨item, hitem, hroot⟩ := mem_rootsOf.mp hm
      exact (hitems item hitem).nodes m hroot
    · rwa [houtline.position_eq]
    · intro construct fields place _ hplace _
      exact hplace.covers hitems
  · rintro t rfl
    cases hreduces.answers
  · rintro test body place rfl
    cases hreduces.answers with
    | elif => exact .refl _

/-! ## Trees -/

namespace ParseTree

variable {tree part : ParseTree} {name : String} {children : List ParseTree}

theorem Nested.child (h : (ParseTree.rule name children position).Nested) {child : ParseTree}
    (hchild : child ∈ children) : child.Nested :=
  fun b hb => h b (mem_branches_rule.mpr (.inl ⟨child, hchild, hb⟩))

theorem Nested.covers (h : (ParseTree.rule name children position).Nested) {child : ParseTree}
    (hchild : child ∈ children) : ∀ range ∈ child.range?, position.Covers range :=
  h ⟨name, children, position⟩ (mem_branches_rule.mpr (.inr rfl)) child hchild

theorem Nested.within (h : tree.Nested) (hpart : part.Within tree) : part.Nested := by
  induction hpart with
  | here => exact h
  | inside member _ ih => exact ih (h.child member)

end ParseTree

/-- In a nested tree, what a tree reduces to lies within every range that covers its own. -/
theorem inside_of_reduce {tree : ParseTree} (hnested : tree.Nested)
    (houter : ∀ range ∈ tree.range?, outer.Covers range)
    (h : reduce options tree = .ok result) : result.Inside outer := by
  -- For any outer range, since a token without a position has none to start from.
  induction tree using ParseTree.induction_children generalizing outer result with
  | absent =>
      rw [reduce] at h
      cases h
      exact ⟨by simp, by simp, by simp⟩
  | token t =>
      rw [reduce] at h
      cases h
      refine ⟨by simp, ?_, by simp⟩
      rintro _ ⟨rfl⟩
      by_cases hknown : t.position = .unknown
      · exact .inl hknown
      · exact .inr (houter t.position (by simp [ParseTree.range?, hknown]))
  | rule name children position ih =>
      obtain ⟨items, hitems, hresult⟩ := reduce_rule_eq_ok h
      have hinside : ∀ item ∈ items, item.Inside position := by
        intro item hitem
        obtain ⟨child, hchild, hreduced⟩ := exists_of_forall₂_right hitems hitem
        exact ih child hchild (hnested.child hchild) (hnested.covers hchild) hreduced
      suffices hhere : result.Inside position from hhere.mono (houter position rfl)
      rcases hresult with ⟨rule, _, hok⟩ | ⟨_, rfl⟩
      · exact inside_of_apply hok (forall_rootsOf_of_reducts hitems fun _ _ _ =>
          everywhere_wellFormed_of_reduce) hinside
      · refine ⟨fun n hn => ?_, by simp, by simp⟩
        obtain ⟨item, hitem, hroot⟩ := mem_rootsOf.mp hn
        exact (hinside item hitem).nodes n hroot

/-- In a tree with nested ranges, every node at any depth of what a part reduces to has a
range within that of the part. -/
theorem covers_of_reduce_within (options : Options) {tree part : ParseTree} {result : Reduced}
    (hnested : tree.Nested) (hpart : part.Within tree) (h : reduce options part = .ok result) :
    ∀ n ∈ result.subtrees, ∃ range, part.range? = some range ∧ range.Covers n.position := by
  intro n hn
  cases part with
  | absent | token =>
      rw [reduce] at h
      cases h
      cases hn
  | rule name children position =>
      have hinside : result.Inside position := by
        refine inside_of_reduce (hnested.within hpart) ?_ h
        rintro _ ⟨rfl⟩
        exact .refl _
      exact ⟨position, rfl, forall_subtrees_iff.mpr hinside.nodes n hn⟩

/-- The tree of `a.b.c`, whose first step has no position. -/
def accessChain : ParseTree :=
  .rule "attr_chain" [.rule "var" [.token ⟨"NAME", "a", ⟨1, 1, 1, 2⟩⟩] ⟨1, 1, 1, 2⟩,
    .token ⟨"NAME", "b", .unknown⟩, .token ⟨"NAME", "c", ⟨1, 5, 1, 6⟩⟩] ⟨1, 1, 1, 6⟩

/-- All three nodes of the chain lie in its range, the inner access up to its end. -/
theorem covers_of_reduce_within_chain :
    ∃ result, reduce .default accessChain = .ok result ∧ accessChain.Nested ∧
      result.subtrees.map Node.position = [⟨1, 1, 1, 6⟩, ⟨1, 1, 1, 6⟩, ⟨1, 1, 1, 2⟩] ∧
      ∀ n ∈ result.subtrees, ∃ range, accessChain.range? = some range ∧
        range.Covers n.position := by
  have hnested : accessChain.Nested := by decide
  exact ⟨_, rfl, hnested, rfl, covers_of_reduce_within .default hnested .here rfl⟩

end TreeLowering
