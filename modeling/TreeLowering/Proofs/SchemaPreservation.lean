/-
# The schema is kept

A step whose parts follow the schema at every depth is never short of a slot: it fails
with a report of what it found, or hands on nodes that follow the schema again. Leaves
have no nodes, so no tree can ever be lowered to a node whose fields are not the slots of
its construct, and no failure of a reduction speaks of slots.
-/

import TreeLowering.Proofs.Reduction.Derivation
import TreeLowering.Proofs.Reduction.Transform

namespace TreeLowering

open TreeLowering.Reduced

/-- Beneath all rules, a failure is due to fields that are not those of a construct. -/
def Error.IsIncomplete (e : Error) : Prop :=
  ∃ construct detail, e.rootCause = .incompleteNode construct detail

/-- Every node at any depth follows the schema, or a failure has another cause than a
fault in the fields of a node. -/
def KeepsSchema : Except Error Reduced → Prop
  | .ok result => ∀ n ∈ result.subtrees, n.FollowsSchema
  | .error e => ¬ e.IsIncomplete

theorem Error.IsReport.not_isIncomplete {cause : Error} (h : cause.IsReport) (rule : String)
    (position : Position) : ¬ (Error.inRule rule position cause).IsIncomplete := by
  rintro ⟨construct, detail, hroot⟩
  rw [Error.rootCause, h.rootCause_eq] at hroot
  rw [hroot] at h
  exact h

variable {options : Options}

/-- Targets follow the schema as the nodes that they were did. -/
theorem Node.bind_followsSchema {n m : Node} {u : Usage} (h : n.Everywhere Node.FollowsSchema)
    (hb : n.bind u = .ok m) : m.Everywhere Node.FollowsSchema :=
  ((Node.bind_yields h).of_ok hb).2.2.2

/-- Steps keep the schema. -/
theorem followsSchema_of_apply {rule : Rule} {position : Position} {items : List Reduced}
    {result : Reduced} (hok : apply options rule position items = .ok result)
    (hitems : FollowSchema items) : ∀ n ∈ result.roots, n.Everywhere Node.FollowsSchema := by
  intro n hn
  have hgiven : ∀ m ∈ rootsOf items, m.fields.map (·.1) = m.construct.slots :=
    fun m hm => (hitems m hm).self
  have hderived := (reduces_of_apply hitems hok).derived shapes_slots hgiven n hn
  exact hderived.everywhere hitems Node.bind_followsSchema fun hshape _ _ => hshape

theorem followsSchema_of_reduce {tree : ParseTree} {result : Reduced}
    (h : reduce options tree = .ok result) : ∀ n ∈ result.roots, n.Everywhere Node.FollowsSchema :=
  roots_of_reduce (fun _ _ _ _ => followsSchema_of_apply) h

/-- A step whose parts follow the schema keeps it. -/
theorem keepsSchema_apply (options : Options) (rule : Rule) (position : Position)
    {items : List Reduced} (hitems : FollowSchema items) :
    KeepsSchema (apply options rule position items) := by
  cases hout : apply options rule position items with
  | ok result => exact forall_subtrees_iff.mpr (followsSchema_of_apply hout hitems)
  | error e =>
      obtain ⟨cause, hcause, rfl⟩ := report_of_apply hitems hout
      exact hcause.not_isIncomplete rule.name position

/-- No step of a reduction whose parts follow the schema, and no reduction of a tree,
fails for the fields of a node, and every node at any depth of what they hand on follows
the schema. -/
theorem keepsSchema_apply_and_reduce (options : Options) :
    (∀ (rule : Rule) (position : Position) (items : List Reduced),
      (∀ item ∈ items, ∀ n ∈ item.subtrees, n.FollowsSchema) →
        KeepsSchema (apply options rule position items)) ∧
      ∀ tree : ParseTree, KeepsSchema (reduce options tree) := by
  constructor
  · intro rule position items hitems
    apply keepsSchema_apply options rule position
    intro n hn
    obtain ⟨item, hitem, hroot⟩ := mem_rootsOf.mp hn
    exact forall_subtrees_iff.mp (hitems item hitem) n hroot
  · intro tree
    cases hout : reduce options tree with
    | ok result => exact forall_subtrees_iff.mpr (followsSchema_of_reduce hout)
    | error e =>
        obtain ⟨rule, position, children, items, hreducts, herror⟩ :=
          exists_step_of_reduce_eq_error hout
        have hitems : FollowSchema items :=
          forall_rootsOf_of_reducts hreducts fun _ _ _ => followsSchema_of_reduce
        have hkept := keepsSchema_apply options rule position hitems
        rwa [herror] at hkept

/-- Deleting `[x]` binds the list and the name in it, and both follow the schema still. -/
theorem keepsSchema_apply_deletion :
    ∃ result, apply .default .delStmt .unknown [.node (.mk .list
        [("elts", .list [.mk .name [("id", .text "x"), ("ctx", .usage .read)] .unknown]),
          ("ctx", .usage .read)] .unknown)] = .ok result ∧
      ∀ n ∈ result.subtrees, n.FollowsSchema :=
  ⟨_, rfl, (keepsSchema_apply_and_reduce .default).1 .delStmt .unknown [.node (.mk .list
    [("elts", .list [.mk .name [("id", .text "x"), ("ctx", .usage .read)] .unknown]),
      ("ctx", .usage .read)] .unknown)] (by decide)⟩

end TreeLowering
