/-
# Subtrees

The nodes that a node holds directly and those at every depth, for a single node, for a
reduced value and for the parts of a reduction. A property of nodes holds everywhere in
a node when every subtree has it. Induction over a node goes from the nodes it holds to
the node itself, however they are arranged in its slots.
-/

import TreeLowering.Reduced.Basic

namespace TreeLowering

/-- The nodes that the content of a field holds directly. -/
def Value.children : Value → List Node
  | .node n => [n]
  | .list nodes => nodes
  | .sparse slots => slots.filterMap id
  | .scalar _ => []

/-- The nodes that fields hold directly, in slot order. -/
def childrenOf (fields : List (String × Value)) : List Node :=
  fields.flatMap fun field => field.2.children

@[simp]
theorem childrenOf_nil : childrenOf [] = [] := rfl

@[simp]
theorem childrenOf_cons (slot : String) (value : Value) (rest : List (String × Value)) :
    childrenOf ((slot, value) :: rest) = value.children ++ childrenOf rest := rfl

@[simp]
theorem childrenOf_append (first rest : List (String × Value)) :
    childrenOf (first ++ rest) = childrenOf first ++ childrenOf rest :=
  List.flatMap_append

theorem mem_childrenOf {fields : List (String × Value)} {child : Node} :
    child ∈ childrenOf fields ↔ ∃ slot value, (slot, value) ∈ fields ∧ child ∈ value.children := by
  simp [childrenOf]

namespace Value

@[simp]
theorem children_node (n : Node) : (Value.node n).children = [n] := rfl

@[simp]
theorem children_list (nodes : List Node) : (Value.list nodes).children = nodes := rfl

@[simp]
theorem children_sparse (slots : List (Option Node)) :
    (Value.sparse slots).children = slots.filterMap id := rfl

@[simp]
theorem children_scalar (s : Scalar) : (Value.scalar s).children = [] := rfl

@[simp]
theorem children_text (value : String) : (Value.text value).children = [] := rfl

@[simp]
theorem children_int (value : Int) : (Value.int value).children = [] := rfl

@[simp]
theorem children_operator (op : Operator) : (Value.operator op).children = [] := rfl

@[simp]
theorem children_usage (u : Usage) : (Value.usage u).children = [] := rfl

@[simp]
theorem children_absent : absent.children = [] := rfl

@[simp]
theorem children_ofText? (value : Option String) : (Value.ofText? value).children = [] := by
  cases value <;> rfl

@[simp]
theorem children_ofOption (value : Option Node) :
    (Value.ofOption value).children = value.toList := by
  cases value <;> rfl

end Value

namespace Node

/-- The nodes that a node holds directly. -/
def children (n : Node) : List Node :=
  childrenOf n.fields

@[simp]
theorem children_mk (construct : Construct) (fields : List (String × Value))
    (position : Position) : (mk construct fields position).children = childrenOf fields := rfl

mutual

/-- The nodes at every depth of a node, itself first. -/
def subtrees : Node → List Node
  | .mk construct fields position => .mk construct fields position :: subtreesOfFields fields

/-- The nodes at every depth of fields. -/
def subtreesOfFields : List (String × Value) → List Node
  | [] => []
  | (_, value) :: rest => subtreesOfValue value ++ subtreesOfFields rest

/-- The nodes at every depth of the content of a field. -/
def subtreesOfValue : Value → List Node
  | .node n => subtrees n
  | .list nodes => subtreesOfList nodes
  | .sparse slots => subtreesOfSlots slots
  | .scalar _ => []

/-- The nodes at every depth of a list of nodes. -/
def subtreesOfList : List Node → List Node
  | [] => []
  | n :: rest => subtrees n ++ subtreesOfList rest

/-- The nodes at every depth of a list with empty slots. -/
def subtreesOfSlots : List (Option Node) → List Node
  | [] => []
  | some n :: rest => subtrees n ++ subtreesOfSlots rest
  | none :: rest => subtreesOfSlots rest

end

theorem subtreesOfList_eq (nodes : List Node) :
    subtreesOfList nodes = nodes.flatMap subtrees := by
  induction nodes with
  | nil => rfl
  | cons n rest ih => rw [subtreesOfList, ih, List.flatMap_cons]

theorem subtreesOfSlots_eq (slots : List (Option Node)) :
    subtreesOfSlots slots = (slots.filterMap id).flatMap subtrees := by
  induction slots with
  | nil => rfl
  | cons slot rest ih => cases slot <;> simp [subtreesOfSlots, ih]

theorem subtreesOfValue_eq (value : Value) :
    subtreesOfValue value = value.children.flatMap subtrees := by
  cases value <;>
    simp [subtreesOfValue, subtreesOfList_eq, subtreesOfSlots_eq]

theorem subtreesOfFields_eq (fields : List (String × Value)) :
    subtreesOfFields fields = (childrenOf fields).flatMap subtrees := by
  induction fields with
  | nil => rfl
  | cons field rest ih =>
      rw [subtreesOfFields, ih, subtreesOfValue_eq, childrenOf_cons, List.flatMap_append]

/-- A node and the subtrees of the nodes it holds are all its subtrees. -/
theorem subtrees_eq (n : Node) : n.subtrees = n :: n.children.flatMap subtrees := by
  cases n with
  | mk construct fields position => rw [subtrees, subtreesOfFields_eq, children_mk]

/-! ## Induction -/

theorem sizeOf_lt_of_mem_children_value {value : Value} {child : Node}
    (h : child ∈ value.children) : sizeOf child < sizeOf value := by
  cases value with
  | node n =>
      rw [Value.children_node, List.mem_singleton] at h
      subst h
      simp
  | list nodes =>
      rw [Value.children_list] at h
      have hlt := List.sizeOf_lt_of_mem h
      simp only [Value.list.sizeOf_spec]
      omega
  | sparse slots =>
      rw [Value.children_sparse, List.mem_filterMap] at h
      obtain ⟨slot, hmem, hslot⟩ := h
      have hlt := List.sizeOf_lt_of_mem hmem
      cases hslot
      simp only [Option.some.sizeOf_spec] at hlt
      simp only [Value.sparse.sizeOf_spec]
      omega
  | scalar s => simp at h

/-- A node is larger than each node it holds. -/
theorem sizeOf_lt_of_mem_children {n child : Node} (h : child ∈ n.children) :
    sizeOf child < sizeOf n := by
  cases n with
  | mk construct fields position =>
      rw [children_mk, mem_childrenOf] at h
      obtain ⟨slot, value, hfield, hchild⟩ := h
      have hvalue := sizeOf_lt_of_mem_children_value hchild
      have hmem := List.sizeOf_lt_of_mem hfield
      simp only [Prod.mk.sizeOf_spec] at hmem
      simp only [mk.sizeOf_spec]
      omega

/-- What the nodes held by a node hand on to it holds of every node. -/
theorem induction_children {motive : Node → Prop}
    (step : ∀ n : Node, (∀ child ∈ n.children, motive child) → motive n) (n : Node) :
    motive n :=
  step n fun child h =>
    have := sizeOf_lt_of_mem_children h
    induction_children step child
termination_by sizeOf n

/-! ## Properties of every subtree -/

/-- Every subtree of a node has a property. -/
def Everywhere (holds : Node → Prop) (n : Node) : Prop :=
  ∀ m ∈ n.subtrees, holds m

variable {holds : Node → Prop}

theorem everywhere_iff {n : Node} :
    n.Everywhere holds ↔ holds n ∧ ∀ child ∈ n.children, child.Everywhere holds := by
  rw [Everywhere, subtrees_eq]
  simp only [List.mem_cons, List.mem_flatMap, forall_eq_or_imp, Everywhere]
  exact and_congr_right fun _ =>
    ⟨fun h child hchild m hm => h m ⟨child, hchild, hm⟩,
      fun h m ⟨child, hchild, hm⟩ => h child hchild m hm⟩

theorem everywhere_and {other : Node → Prop} {n : Node} :
    n.Everywhere (fun m => holds m ∧ other m) ↔ n.Everywhere holds ∧ n.Everywhere other := by
  simp only [Everywhere, forall_and]

theorem Everywhere.self {n : Node} (h : n.Everywhere holds) : holds n :=
  (everywhere_iff.mp h).1

theorem Everywhere.child {n child : Node} (h : n.Everywhere holds)
    (hchild : child ∈ n.children) : child.Everywhere holds :=
  (everywhere_iff.mp h).2 child hchild

theorem everywhere_mk_iff {construct : Construct} {fields : List (String × Value)}
    {position : Position} :
    (mk construct fields position).Everywhere holds ↔
      holds (mk construct fields position) ∧
        ∀ child ∈ childrenOf fields, child.Everywhere holds :=
  everywhere_iff

end Node

/-! ## Reduced values -/

/-- The nodes directly in a trailing block. -/
def Clause.roots : Clause → List Node
  | .elif test body _ => test :: body
  | .otherwise block => block
  | .finish block => block

/-- The nodes directly in a piece of a parameter list. -/
def Parameter.roots : Parameter → List Node
  | .plain parameter default? => parameter :: default?.toList
  | .star parameter? => parameter?.toList
  | .mapping parameter => [parameter]
  | .slash => []

namespace Reduced

mutual

/-- The nodes at the top of a reduced value, in source order. -/
def roots : Reduced → List Node
  | .node n => [n]
  | .nodes ns => ns
  | .fragment _ children _ => rootsOf children
  | .pair key value => [key, value]
  | .unpack mapping => [mapping]
  | .clause c => c.roots
  | .parameter p => p.roots
  | .operator _ => []
  | .token _ => []
  | .absent => []
  | .dotted _ => []
  | .level _ => []

/-- The nodes at the top of a list of parts. -/
def rootsOf : List Reduced → List Node
  | [] => []
  | item :: rest => roots item ++ rootsOf rest

end

attribute [simp] roots rootsOf

@[simp]
theorem rootsOf_append (first rest : List Reduced) :
    rootsOf (first ++ rest) = rootsOf first ++ rootsOf rest := by
  induction first with
  | nil => rfl
  | cons item others ih => simp [ih]

theorem rootsOf_eq_flatMap (items : List Reduced) : rootsOf items = items.flatMap roots := by
  induction items with
  | nil => rfl
  | cons item rest ih => rw [rootsOf, ih, List.flatMap_cons]

theorem mem_rootsOf {items : List Reduced} {n : Node} :
    n ∈ rootsOf items ↔ ∃ item ∈ items, n ∈ item.roots := by
  rw [rootsOf_eq_flatMap, List.mem_flatMap]

/-- The nodes at every depth of a reduced value. -/
def subtrees (r : Reduced) : List Node :=
  r.roots.flatMap Node.subtrees

theorem forall_subtrees_iff {r : Reduced} {holds : Node → Prop} :
    (∀ m ∈ r.subtrees, holds m) ↔ ∀ n ∈ r.roots, n.Everywhere holds := by
  simp only [subtrees, List.mem_flatMap, Node.Everywhere]
  exact ⟨fun h n hn m hm => h m ⟨n, hn, hm⟩, fun h m ⟨n, hn, hm⟩ => h n hn m hm⟩

end Reduced

end TreeLowering
