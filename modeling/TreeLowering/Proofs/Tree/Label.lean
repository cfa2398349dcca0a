/-
# Labels

What a node says by itself: its construct, its source range and its scalar content but
for the usage. The labels at every depth of a tree are counted without regard to their
order, except those of constructs that come and go on the way: names may be read for
their identifier, and some constructs are made without a rule of their own or change into
a twin. Binding a target keeps all labels.
-/

import Mathlib.Algebra.BigOperators.Group.List.Basic
import Mathlib.Algebra.Order.Group.Multiset
import TreeLowering.Proofs.Tree.Binding

namespace TreeLowering

/-- The scalar that the content of a field is. -/
def Value.scalar? : Value → Option Scalar
  | .scalar s => some s
  | _ => none

/-- What a node says without the nodes that it holds. -/
structure Label where
  construct : Construct
  position : Position
  scalars : List (String × Scalar)

/-- Whether the labels of a construct are counted. -/
def Construct.isCounted : Construct → Bool
  | .name | .attribute | .tuple | .ifStmt | .arguments | .functionDef | .forStmt | .withStmt
  | .asyncFunctionDef | .asyncFor | .asyncWith => false
  | _ => true

/-- Neither of two twins is counted. -/
theorem Construct.isCounted_of_asyncTwin? {construct twin : Construct}
    (h : construct.asyncTwin? = some twin) :
    construct.isCounted = false ∧ twin.isCounted = false := by
  cases construct <;> cases h <;> decide

/-- The label of a node. -/
def Node.label (n : Node) : Label where
  construct := n.construct
  position := n.position
  scalars := (n.fields.filter (·.1 ≠ "ctx")).filterMap fun field =>
    field.2.scalar?.map (field.1, ·)

/-- The label of a node if it is counted. -/
def Node.ownLabel (n : Node) : Multiset Label :=
  if n.construct.isCounted then {n.label} else 0

/-- The counted labels at every depth of a node. -/
def Node.labels (n : Node) : Multiset Label :=
  (n.subtrees.filter fun m => m.construct.isCounted).map Node.label

/-- The counted labels at every depth of nodes. -/
def labelsOf (nodes : List Node) : Multiset Label :=
  (nodes.map Node.labels).sum

/-- The counted labels at every depth of a reduced value. -/
def Reduced.labels (r : Reduced) : Multiset Label :=
  labelsOf r.roots

variable {nodes first rest : List Node} {n m : Node}

@[simp]
theorem labelsOf_nil : labelsOf [] = 0 := rfl

@[simp]
theorem labelsOf_cons (n : Node) (rest : List Node) :
    labelsOf (n :: rest) = n.labels + labelsOf rest := by
  rw [labelsOf, List.map_cons, List.sum_cons, labelsOf]

@[simp]
theorem labelsOf_append (first rest : List Node) :
    labelsOf (first ++ rest) = labelsOf first + labelsOf rest := by
  rw [labelsOf, List.map_append, List.sum_append, labelsOf, labelsOf]

theorem labelsOf_eq_coe (nodes : List Node) : labelsOf nodes =
    ((nodes.flatMap Node.subtrees).filter fun m => m.construct.isCounted).map Node.label := by
  induction nodes with
  | nil => rfl
  | cons n rest ih =>
      rw [labelsOf_cons, ih, Node.labels, Multiset.coe_add, List.flatMap_cons, List.filter_append,
        List.map_append]

/-- The labels of a node are its own and those of the nodes that it holds. -/
theorem Node.labels_eq (n : Node) : n.labels = n.ownLabel + labelsOf n.children := by
  rw [labelsOf_eq_coe, labels, subtrees_eq, List.filter_cons, ownLabel]
  split
  · rfl
  · rw [zero_add]

theorem Node.labels_of_uncounted (h : n.construct.isCounted = false) :
    n.labels = labelsOf n.children := by
  rw [labels_eq, ownLabel, h, if_neg Bool.false_ne_true, zero_add]

theorem labelsOf_perm (h : first.Perm rest) : labelsOf first = labelsOf rest :=
  (h.map Node.labels).sum_eq

/-- The two halves of nodes have all their labels. -/
theorem labelsOf_filter_add (p : Node → Bool) (nodes : List Node) :
    labelsOf (nodes.filter fun n => !p n) + labelsOf (nodes.filter p) = labelsOf nodes := by
  rw [add_comm, ← labelsOf_append]
  exact labelsOf_perm (List.filter_append_perm p nodes)

/-- The labels of parts are those of the nodes at their top. -/
theorem sum_map_labels (items : List Reduced) :
    (items.map Reduced.labels).sum = labelsOf (Reduced.rootsOf items) := by
  induction items with
  | nil => rfl
  | cons item others ih =>
      rw [List.map_cons, List.sum_cons, ih, Reduced.rootsOf, labelsOf_append]
      rfl

/-- A well-formed name holds no nodes, so it has no labels to count. -/
theorem Node.labels_of_name (hname : n.construct = .name) (hformed : n.WellFormed) :
    n.labels = 0 := by
  obtain ⟨construct, fields, position⟩ := n
  rw [Node.construct] at hname
  subst hname
  rw [wellFormed_mk] at hformed
  cases hformed with
  | name id usage => exact labels_of_uncounted rfl
  | display kind | branching kind | forLoop kind | withBlock kind | function kind
  | optionalValue kind | scope kind => rcases kind with h | h <;> cases h
  | elementComprehension kind | keywordStmt kind | requiredValue kind =>
      rcases kind with h | h | h <;> cases h

theorem labelsOf_forall₂ (h : List.Forall₂ (fun n m => m.labels = n.labels) first rest) :
    labelsOf rest = labelsOf first := by
  induction h with
  | nil => rfl
  | cons hhead _ ih => rw [labelsOf_cons, hhead, ih, labelsOf_cons]

theorem Node.ownLabel_eq_of_label_eq (hlabel : m.label = n.label) : m.ownLabel = n.ownLabel := by
  have hconstruct : m.construct = n.construct := congrArg Label.construct hlabel
  rw [ownLabel, ownLabel, hlabel, hconstruct]

/-- Nodes of one label that hold nodes of equal labels have equal labels at every depth. -/
theorem Node.labels_eq_of_label_eq (hlabel : m.label = n.label)
    (hchildren : labelsOf m.children = labelsOf n.children) : m.labels = n.labels := by
  rw [labels_eq, labels_eq, hchildren, ownLabel_eq_of_label_eq hlabel]

/-- Binding changes usages alone, and no label has one. -/
theorem Node.labels_bind {u : Usage} (hformed : n.Everywhere WellFormed)
    (hb : n.bind u = .ok m) : m.labels = n.labels := by
  refine bind_induction (motive := fun n m => m.labels = n.labels) ?_ hformed hb
  intro n m _ hlayer
  cases hlayer with
  | display kind old position inside =>
      refine labels_eq_of_label_eq rfl ?_
      simpa using labelsOf_forall₂ (inside.imp fun _ _ h => h.2.2)
  | starred old position inside =>
      refine labels_eq_of_label_eq rfl ?_
      simpa using inside.2.2
  | name id old position => exact labels_eq_of_label_eq rfl rfl
  | access value attr old position => exact labels_eq_of_label_eq rfl rfl
  | subscript value index old position => exact labels_eq_of_label_eq rfl rfl

end TreeLowering
