/-
# Usages and places

The usage that each place of a tree calls for. A target slot has its own usage, the
elements of a display and the value of a starred expression share the usage of the node
that holds them, and every other place is read. Binding gives a node that is read
throughout the usage of its new place, and changes nothing that stays in a place of its
own.
-/

import TreeLowering.Proofs.Tree.Binding

namespace TreeLowering

namespace Construct

/-- The slot of a construct that holds targets, and the usage of the targets. -/
def targetSlot? : Construct → Option (String × Usage)
  | .assign => some ("targets", .write)
  | .deleteStmt => some ("targets", .delete)
  | .augAssign | .annAssign | .namedExpr | .forStmt | .asyncFor | .comprehension =>
    some ("target", .write)
  | .withItem => some ("optional_vars", .write)
  | _ => none

/-- The slot of a construct whose nodes share the usage of the node that holds them. -/
def sharedSlot? : Construct → Option String
  | .list | .tuple => some "elts"
  | .starred => some "value"
  | _ => none

theorem targetSlot?_of_hasSlot_ctx {construct : Construct} (h : construct.hasSlot "ctx") :
    construct.targetSlot? = none := by
  revert h
  cases construct <;> decide

theorem hasSlot_ctx_of_sharedSlot? {construct : Construct} {slot : String}
    (h : construct.sharedSlot? = some slot) : construct.hasSlot "ctx" := by
  cases construct <;> cases h <;> rfl

/-- Constructs with decorators hold no targets. -/
theorem targetSlot?_of_decorated {construct : Construct}
    (h : "decorator_list" ∈ construct.slots) :
    construct.targetSlot? = none ∧ construct.hasSlot "ctx" = false := by
  revert h
  cases construct <;> decide

/-- Twins call for the same usages. -/
theorem targetSlot?_of_asyncTwin? {construct twin : Construct}
    (h : construct.asyncTwin? = some twin) :
    twin.targetSlot? = construct.targetSlot? ∧ twin.sharedSlot? = none ∧
      construct.sharedSlot? = none ∧ twin.hasSlot "ctx" = false := by
  cases construct <;> cases h <;> decide

end Construct

namespace Node

/-- The usage that a slot of a node calls for. -/
def calledFor (n : Node) (slot : String) : Usage :=
  match n.construct.targetSlot? with
  | some (name, usage) => if slot = name then usage else .read
  | none => if n.construct.sharedSlot? = some slot then n.usage?.getD .read else .read

/-- A node has exactly one usage, if it is of a construct with usages at all. -/
def HasUsage (u : Usage) (n : Node) : Prop :=
  n.get? "ctx" = if n.construct.hasSlot "ctx" then some (.usage u) else none

/-- Every node in a slot has the usage that the slot calls for. In a slot that shares a
usage other than reading, it is of a construct with usages. -/
def PlacesUsage (n : Node) : Prop :=
  ∀ field ∈ n.fields, ∀ child ∈ field.2.children, child.HasUsage (n.calledFor field.1) ∧
    (n.construct.sharedSlot? = some field.1 → n.usage? ≠ some .read →
      child.construct.hasSlot "ctx")

variable {u : Usage} {n : Node}

theorem HasUsage.usage?_eq (h : n.HasUsage u) (hctx : n.construct.hasSlot "ctx") :
    n.usage? = some u := by
  rw [usage?, h, if_pos hctx]
  rfl

/-- The names of the slots alone show that a construct without usages has none. -/
theorem hasUsage_of_not_hasSlot (hnames : n.FollowsSchema)
    (hctx : n.construct.hasSlot "ctx" = false) : n.HasUsage u := by
  rw [HasUsage, hctx, get?, if_neg Bool.false_ne_true]
  apply List.lookup_eq_none_iff.mpr
  intro field hfield
  have hslot : field.1 ∈ n.construct.slots := hnames ▸ List.mem_map_of_mem hfield
  rw [← Construct.hasSlot_iff] at hslot
  rw [bne_iff_ne]
  intro heq
  rw [← heq, hctx] at hslot
  cases hslot

theorem calledFor_of_shared (husage : n.HasUsage u) {slot : String}
    (hshared : n.construct.sharedSlot? = some slot) : n.calledFor slot = u := by
  have hctx := Construct.hasSlot_ctx_of_sharedSlot? hshared
  rw [calledFor, Construct.targetSlot?_of_hasSlot_ctx hctx]
  dsimp only
  rw [if_pos hshared, husage.usage?_eq hctx]
  rfl

theorem calledFor_of_unshared (hnone : n.construct.targetSlot? = none) {slot : String}
    (hunshared : n.construct.sharedSlot? ≠ some slot) : n.calledFor slot = .read := by
  rw [calledFor, hnone]
  exact if_neg hunshared

/-- In a node that is read and holds no targets, every place is read. -/
theorem calledFor_of_reads (hreads : n.HasUsage .read) (hnone : n.construct.targetSlot? = none)
    (slot : String) : n.calledFor slot = .read := by
  by_cases hshared : n.construct.sharedSlot? = some slot
  · exact calledFor_of_shared hreads hshared
  · exact calledFor_of_unshared hnone hshared

theorem calledFor_of_asyncTwin? {twin : Construct} (h : n.construct.asyncTwin? = some twin)
    (fields : List (String × Value)) (position : Position) (slot : String) :
    (mk twin fields position).calledFor slot = n.calledFor slot := by
  obtain ⟨htarget, hunshared, hunshared', _⟩ := Construct.targetSlot?_of_asyncTwin? h
  rw [calledFor, calledFor, construct, htarget, hunshared, hunshared']
  rfl

/-- Without slots of these two kinds, the places of a node are right when all its nodes
are read. -/
theorem placesUsage_iff_of_plain (hnone : n.construct.targetSlot? = none)
    (hunshared : n.construct.sharedSlot? = none) :
    n.PlacesUsage ↔ ∀ child ∈ n.children, child.HasUsage .read := by
  have hread : ∀ slot, n.calledFor slot = .read := fun slot =>
    calledFor_of_unshared hnone (by simp [hunshared])
  simp only [PlacesUsage, hread, hunshared, reduceCtorEq, false_implies, and_true, children,
    childrenOf, List.mem_flatMap]
  constructor
  · rintro h child ⟨field, hfield, hchild⟩
    exact h field hfield child hchild
  · intro h field hfield child hchild
    exact h child ⟨field, hfield, hchild⟩

/-! ## Binding -/

/-- A node that is read, with all its places as they should be, has the usage it is bound
to, again with all its places as they should be. -/
theorem bind_placesUsage {m : Node} (hformed : n.Everywhere WellFormed)
    (hplaces : n.Everywhere PlacesUsage) (hreads : n.HasUsage .read) (hb : n.bind u = .ok m) :
    m.HasUsage u ∧ m.Everywhere PlacesUsage := by
  refine bind_induction (motive := fun n m => n.HasUsage .read → n.Everywhere PlacesUsage →
    m.HasUsage u ∧ m.Everywhere PlacesUsage) ?_ hformed hb hreads hplaces
  intro n m _ hlayer hreads hplaces
  cases hlayer with
  | @display construct kind elements bound old position inside =>
      have hshared : construct.sharedSlot? = some "elts" := by
        rcases kind with rfl | rfl <;> rfl
      have husage :
          (mk construct [("elts", .list bound), ("ctx", .usage u)] position).HasUsage u := by
        rcases kind with rfl | rfl <;> rfl
      have hbound : ∀ child ∈ bound, child.HasUsage u ∧ child.Everywhere PlacesUsage ∧
          child.construct.hasSlot "ctx" := by
        intro child hchild
        obtain ⟨element, _, hmem, hb, hrelated⟩ := exists_of_forall₂_right inside hchild
        have helement : element ∈ elements := by simpa using hmem
        have hread := (hplaces.self _ List.mem_cons_self element helement).1
        rw [calledFor_of_shared hreads hshared] at hread
        obtain ⟨hhas, hall⟩ := hrelated hread (hplaces.child hmem)
        obtain ⟨hsame, hctx⟩ := construct_of_bind hb
        exact ⟨hhas, hall, hsame ▸ hctx⟩
      refine ⟨husage, everywhere_mk_iff.mpr ⟨?_, fun child hchild => ?_⟩⟩
      · simp only [PlacesUsage, fields, List.forall_mem_cons]
        refine ⟨fun child hchild => ?_, by simp, by simp⟩
        rw [calledFor_of_shared husage hshared]
        exact ⟨(hbound child hchild).1, fun _ _ => (hbound child hchild).2.2⟩
      · exact (hbound child (by simpa using hchild)).2.1
  | @starred value bound old position inside =>
      have husage : (mk .starred [("value", .node bound), ("ctx", .usage u)] position).HasUsage u :=
        rfl
      have hread := (hplaces.self _ List.mem_cons_self value List.mem_cons_self).1
      rw [calledFor_of_shared hreads rfl] at hread
      obtain ⟨hmem, hb, hrelated⟩ := inside
      obtain ⟨hhas, hall⟩ := hrelated hread (hplaces.child hmem)
      obtain ⟨hsame, hctx⟩ := construct_of_bind hb
      refine ⟨husage, everywhere_mk_iff.mpr ⟨?_, by simpa using hall⟩⟩
      simp only [PlacesUsage, fields, List.forall_mem_cons]
      refine ⟨fun child hchild => ?_, by simp, by simp⟩
      rw [Value.children_node, List.mem_singleton] at hchild
      subst hchild
      rw [calledFor_of_shared husage rfl]
      exact ⟨hhas, fun _ _ => hsame ▸ hctx⟩
  | name id old position =>
      exact ⟨rfl, everywhere_mk_iff.mpr ⟨(placesUsage_iff_of_plain rfl rfl).mpr (by simp), by simp⟩⟩
  | access value attr old position =>
      have hread := (placesUsage_iff_of_plain rfl rfl).mp hplaces.self
      refine ⟨rfl, everywhere_mk_iff.mpr ⟨?_, (everywhere_mk_iff.mp hplaces).2⟩⟩
      exact (placesUsage_iff_of_plain rfl rfl).mpr hread
  | subscript value index old position =>
      have hread := (placesUsage_iff_of_plain rfl rfl).mp hplaces.self
      refine ⟨rfl, everywhere_mk_iff.mpr ⟨?_, (everywhere_mk_iff.mp hplaces).2⟩⟩
      exact (placesUsage_iff_of_plain rfl rfl).mpr hread

end Node

end TreeLowering
