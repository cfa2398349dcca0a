/-
# Relocation

Nodes with their source ranges replaced. Like nodes with the same constants are equal once
all ranges are replaced by what does not differ between the two runs: by nothing at all, or
by themselves where the runs agree in them.
-/

import TreeLowering.Proofs.TwoRuns.Likeness

namespace TreeLowering

variable (f : Position → Position)

mutual

/-- A node with the ranges in it replaced. -/
def Node.relocate : Node → Node
  | .mk construct fields position => .mk construct (Node.relocateFields fields) (f position)

/-- The fields of a node with the ranges in them replaced. -/
def Node.relocateFields : List (String × Value) → List (String × Value)
  | [] => []
  | (slot, value) :: rest => (slot, Value.relocate value) :: Node.relocateFields rest

/-- The content of a field with the ranges in it replaced. -/
def Value.relocate : Value → Value
  | .node n => .node (Node.relocate n)
  | .list nodes => .list (Node.relocateAll nodes)
  | .sparse slots => .sparse (Node.relocateSlots slots)
  | .scalar s => .scalar s

/-- Nodes with the ranges in them replaced. -/
def Node.relocateAll : List Node → List Node
  | [] => []
  | n :: rest => Node.relocate n :: Node.relocateAll rest

/-- Slots with the ranges in their nodes replaced. -/
def Node.relocateSlots : List (Option Node) → List (Option Node)
  | [] => []
  | some n :: rest => some (Node.relocate n) :: Node.relocateSlots rest
  | none :: rest => none :: Node.relocateSlots rest

end

/-- A node without its source ranges. -/
def Node.erased (n : Node) : Node :=
  n.relocate fun _ => .unknown

mutual

/-- Ranges replaced by themselves change nothing. -/
theorem Node.relocate_id : ∀ n : Node, n.relocate id = n
  | .mk construct fields position => by
      rw [Node.relocate, Node.relocateFields_id fields, id]

theorem Node.relocateFields_id : ∀ fields : List (String × Value),
    Node.relocateFields id fields = fields
  | [] => rfl
  | (slot, value) :: rest => by
      rw [Node.relocateFields, Value.relocate_id value, Node.relocateFields_id rest]

theorem Value.relocate_id : ∀ value : Value, value.relocate id = value
  | .node n => by rw [Value.relocate, Node.relocate_id n]
  | .list nodes => by rw [Value.relocate, Node.relocateAll_id nodes]
  | .sparse slots => by rw [Value.relocate, Node.relocateSlots_id slots]
  | .scalar _ => rfl

theorem Node.relocateAll_id : ∀ nodes : List Node, Node.relocateAll id nodes = nodes
  | [] => rfl
  | n :: rest => by rw [Node.relocateAll, Node.relocate_id n, Node.relocateAll_id rest]

theorem Node.relocateSlots_id : ∀ slots : List (Option Node), Node.relocateSlots id slots = slots
  | [] => rfl
  | some n :: rest => by
      rw [Node.relocateSlots, Node.relocate_id n, Node.relocateSlots_id rest]
  | none :: rest => by rw [Node.relocateSlots, Node.relocateSlots_id rest]

end

namespace Likeness

variable {L : Likeness} {f}

/-- The runs agree in the constants, and in the ranges once these are replaced. -/
structure Determines (L : Likeness) (f : Position → Position) : Prop where
  range : ∀ {p q : Position}, L.Ranges p q → f p = f q
  literal : ∀ {p : Position} {v w : Scalar}, L.literals p v w → v = w

mutual

/-- Like nodes with the same constants differ in nothing but ranges. -/
theorem Nodes.relocate_eq (hf : L.Determines f) :
    ∀ (n : Node) {m : Node}, L.Nodes n m → n.relocate f = m.relocate f
  | .mk construct fields p, _, h => by
      cases h with
      | constant literal range =>
          rw [Node.relocate, Node.relocate, hf.range range, hf.literal literal]
      | mk kind content range =>
          rw [Node.relocate, Node.relocate, hf.range range, Fields.relocate_eq hf fields content]

theorem Fields.relocate_eq (hf : L.Determines f) :
    ∀ (fields : List (String × Value)) {others : List (String × Value)},
      L.Fields fields others → Node.relocateFields f fields = Node.relocateFields f others
  | [], _, .nil => rfl
  | (_, v) :: rest, _, .cons slot head tail => by
      rw [Node.relocateFields, Node.relocateFields, Values.relocate_eq hf v head,
        Fields.relocate_eq hf rest tail]

theorem Values.relocate_eq (hf : L.Determines f) :
    ∀ (v : Value) {w : Value}, L.Values v w → v.relocate f = w.relocate f
  | .node n, _, .node like => by
      rw [Value.relocate, Value.relocate, Nodes.relocate_eq hf n like]
  | .list ns, _, .list like => by
      rw [Value.relocate, Value.relocate, NodeLists.relocate_eq hf ns like]
  | .sparse ns, _, .sparse like => by
      rw [Value.relocate, Value.relocate, slots_relocate_eq hf ns like]
  | .scalar _, _, .scalar _ => rfl

theorem NodeLists.relocate_eq (hf : L.Determines f) :
    ∀ (ns : List Node) {ms : List Node}, L.NodeLists ns ms →
      Node.relocateAll f ns = Node.relocateAll f ms
  | [], _, .nil => rfl
  | n :: rest, _, .cons head tail => by
      rw [Node.relocateAll, Node.relocateAll, Nodes.relocate_eq hf n head,
        NodeLists.relocate_eq hf rest tail]

theorem slots_relocate_eq (hf : L.Determines f) :
    ∀ (ns : List (Option Node)) {ms : List (Option Node)},
      List.Forall₂ (Option.Rel L.Nodes) ns ms → Node.relocateSlots f ns = Node.relocateSlots f ms
  | [], _, .nil => rfl
  | some n :: rest, _, .cons (.some head) tail => by
      rw [Node.relocateSlots, Node.relocateSlots, Nodes.relocate_eq hf n head,
        slots_relocate_eq hf rest tail]
  | none :: rest, _, .cons .none tail => by
      rw [Node.relocateSlots, Node.relocateSlots, slots_relocate_eq hf rest tail]

end

/-! ## Failures -/

variable {e e' : Error}

/-- Like failures are attributed to one rule and have one kind of cause. -/
theorem Errors.kind_eq (h : L.Errors e e') :
    e.rule? = e'.rule? ∧ e.rootCause.code = e'.rootCause.code := by
  induction h with
  | inRule rule _ _ ih => exact ⟨rfl, ih.2⟩
  | _ => exact ⟨rfl, rfl⟩

/-- Like failures are equal where ranges and the names of groups matter. -/
theorem Errors.eq (h : L.Errors e e') (hranges : L.ranges) (hnames : L.names) : e = e' := by
  induction h with
  | same => rfl
  | unrecognized what words => rw [words hnames]
  | shape what words => rw [words hnames]
  | notAModule words => rw [words hnames]
  | inRule rule range _ ih => rw [range hranges, ih]

/-! ## Runs that agree in everything -/

/-- A likeness that tells everything apart. -/
def exact : Likeness where
  ranges := True
  names := True
  literals _ value other := value = other
  shared _ := True
  literals_self _ _ := rfl
  literals_text h := by rw [h]

theorem eq_of_exact {o o' : Except Error Node} (h : exact.Outcomes exact.Nodes o o') : o = o' := by
  cases h with
  | @ok n m like =>
      have hsame : n.relocate id = m.relocate id :=
        Nodes.relocate_eq ⟨fun range => range trivial, id⟩ n like
      rw [Node.relocate_id, Node.relocate_id] at hsame
      rw [hsame]
  | error like => rw [like.eq trivial trivial]

end Likeness

end TreeLowering
