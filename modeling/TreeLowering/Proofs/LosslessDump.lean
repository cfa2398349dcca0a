/-
# Dumps lose nothing

A list and a list with empty slots are dumped alike, so different nodes may have the same
dump. Lowered trees may not: construct and slot decide which of the two a slot holds, and
so the dump determines the tree. This is true as well where numbers are compared by value,
which the two zeros have in common.
-/

import TreeLowering.Node.Dump
import TreeLowering.Proofs.Wellformedness

namespace TreeLowering

open TreeLowering.Number

/-! ## Lists with empty slots -/

/-- The slot of a construct that holds a list with empty slots. -/
def Construct.sparseSlot? : Construct → Option String
  | .dict => some "keys"
  | .arguments => some "kw_defaults"
  | _ => none

namespace Value

/-- Whether the content of a field is a list with empty slots. -/
def isSparse : Value → Bool
  | .sparse _ => true
  | _ => false

@[simp]
theorem isSparse_node (n : Node) : (Value.node n).isSparse = false := rfl

@[simp]
theorem isSparse_list (nodes : List Node) : (Value.list nodes).isSparse = false := rfl

@[simp]
theorem isSparse_sparse (slots : List (Option Node)) : (Value.sparse slots).isSparse = true := rfl

@[simp]
theorem isSparse_scalar (s : Scalar) : (Value.scalar s).isSparse = false := rfl

@[simp]
theorem isSparse_ofOption (value : Option Node) : (Value.ofOption value).isSparse = false := by
  cases value <;> rfl

@[simp]
theorem isSparse_ofText? (value : Option String) : (Value.ofText? value).isSparse = false := by
  cases value <;> rfl

end Value

/-- A node has lists with empty slots in the slot of its construct for them, and nowhere
else. -/
def Node.SparseInPlace (n : Node) : Prop :=
  ∀ field ∈ n.fields, field.2.isSparse = (n.construct.sparseSlot? == some field.1)

theorem Node.WellFormed.sparseInPlace {n : Node} (h : n.WellFormed) : n.SparseInPlace := by
  obtain ⟨construct, fields, position⟩ := n
  rw [Node.wellFormed_mk] at h
  unfold Node.SparseInPlace Node.fields Node.construct
  cases h with
  | display kind | branching kind | forLoop kind | withBlock kind | function kind
  | optionalValue kind | scope kind =>
      rcases kind with rfl | rfl <;> simp [Construct.sparseSlot?, Value.text, Value.usage]
  | elementComprehension kind | keywordStmt kind | requiredValue kind =>
      rcases kind with rfl | rfl | rfl <;> simp [Construct.sparseSlot?]
  | _ =>
      simp [Construct.sparseSlot?, Value.text, Value.usage, Value.operator, Value.int]

/-! ## Trees with the same dump -/

mutual

/-- Nodes with the same dump are the same, if lists with empty slots are in place. -/
theorem Node.eq_of_dump_eq : ∀ {n m : Node}, n.Everywhere Node.SparseInPlace →
    m.Everywhere Node.SparseInPlace → n.dump = m.dump → n = m
  | .mk construct fields position, .mk other others range, hn, hm, h => by
      rw [Node.dump, Node.dump, Dump.node.injEq] at h
      obtain ⟨rfl, hfields, rfl⟩ := h
      obtain ⟨hplace, hchildren⟩ := Node.everywhere_mk_iff.mp hn
      obtain ⟨hplace', hchildren'⟩ := Node.everywhere_mk_iff.mp hm
      have hsame : fields = others :=
        Node.eq_of_dumpFields_eq hplace hplace' hchildren hchildren' hfields
      rw [hsame]

theorem Node.eq_of_dumpFields_eq {place? : Option String} :
    ∀ {fields others : List (String × Value)},
      (∀ field ∈ fields, field.2.isSparse = (place? == some field.1)) →
      (∀ field ∈ others, field.2.isSparse = (place? == some field.1)) →
      (∀ child ∈ childrenOf fields, child.Everywhere Node.SparseInPlace) →
      (∀ child ∈ childrenOf others, child.Everywhere Node.SparseInPlace) →
      Node.dumpFields fields = Node.dumpFields others → fields = others
  | [], [], _, _, _, _, _ => rfl
  | [], (_, _) :: _, _, _, _, _, h => by simp [Node.dumpFields] at h
  | (_, _) :: _, [], _, _, _, _, h => by simp [Node.dumpFields] at h
  | (slot, v) :: rest, (name, w) :: others, hv, hw, hn, hm, h => by
      simp only [Node.dumpFields, List.cons.injEq, Prod.mk.injEq] at h
      obtain ⟨⟨rfl, hvalue⟩, hrest⟩ := h
      obtain ⟨hfirst, hv⟩ := List.forall_mem_cons.mp hv
      obtain ⟨hfirst', hw⟩ := List.forall_mem_cons.mp hw
      rw [childrenOf_cons, List.forall_mem_append] at hn hm
      have hsame : v = w :=
        Value.eq_of_dump_eq (hfirst.trans hfirst'.symm) hn.1 hm.1 hvalue
      rw [hsame, Node.eq_of_dumpFields_eq hv hw hn.2 hm.2 hrest]

/-- Only a list and a list with empty slots are dumped alike. -/
theorem Value.eq_of_dump_eq : ∀ {v w : Value}, v.isSparse = w.isSparse →
    (∀ child ∈ v.children, child.Everywhere Node.SparseInPlace) →
    (∀ child ∈ w.children, child.Everywhere Node.SparseInPlace) → v.dump = w.dump → v = w
  | .node n, .node m, _, hn, hm, h => by
      rw [Value.children_node, List.forall_mem_singleton] at hn hm
      rw [Node.eq_of_dump_eq hn hm h]
  | .list ns, .list ms, _, hn, hm, h => by
      rw [Value.dump, Value.dump, Dump.list.injEq] at h
      rw [Value.children_list] at hn hm
      rw [Node.eq_of_dumpAll_eq hn hm h]
  | .sparse ns, .sparse ms, _, hn, hm, h => by
      rw [Value.dump, Value.dump, Dump.list.injEq] at h
      rw [Value.children_sparse] at hn hm
      rw [Node.eq_of_dumpSlots_eq hn hm h]
  | .scalar s, .scalar t, _, _, _, h => by
      rw [Value.dump, Value.dump, Dump.scalar.injEq] at h
      rw [h]
  | .list _, .sparse _, hkind, _, _, _ | .sparse _, .list _, hkind, _, _, _ => nomatch hkind
  | .node (.mk ..), .list _, _, _, _, h | .node (.mk ..), .sparse _, _, _, _, h
  | .node (.mk ..), .scalar _, _, _, _, h | .list _, .node (.mk ..), _, _, _, h
  | .list _, .scalar _, _, _, _, h | .sparse _, .node (.mk ..), _, _, _, h
  | .sparse _, .scalar _, _, _, _, h | .scalar _, .node (.mk ..), _, _, _, h
  | .scalar _, .list _, _, _, _, h | .scalar _, .sparse _, _, _, _, h => nomatch h

theorem Node.eq_of_dumpAll_eq : ∀ {ns ms : List Node},
    (∀ n ∈ ns, n.Everywhere Node.SparseInPlace) → (∀ m ∈ ms, m.Everywhere Node.SparseInPlace) →
    Node.dumpAll ns = Node.dumpAll ms → ns = ms
  | [], [], _, _, _ => rfl
  | [], _ :: _, _, _, h | _ :: _, [], _, _, h => nomatch h
  | n :: rest, m :: others, hn, hm, h => by
      rw [Node.dumpAll, Node.dumpAll, List.cons.injEq] at h
      obtain ⟨hn, hrest⟩ := List.forall_mem_cons.mp hn
      obtain ⟨hm, hothers⟩ := List.forall_mem_cons.mp hm
      rw [Node.eq_of_dump_eq hn hm h.1, Node.eq_of_dumpAll_eq hrest hothers h.2]

/-- The dump of an empty slot is no dump of a node. -/
theorem Node.eq_of_dumpSlots_eq : ∀ {ns ms : List (Option Node)},
    (∀ n ∈ ns.filterMap id, n.Everywhere Node.SparseInPlace) →
    (∀ m ∈ ms.filterMap id, m.Everywhere Node.SparseInPlace) →
    Node.dumpSlots ns = Node.dumpSlots ms → ns = ms
  | [], [], _, _, _ => rfl
  | [], some _ :: _, _, _, h | [], none :: _, _, _, h | some _ :: _, [], _, _, h
  | none :: _, [], _, _, h => nomatch h
  | some (.mk ..) :: _, none :: _, _, _, h | none :: _, some (.mk ..) :: _, _, _, h => nomatch h
  | none :: rest, none :: others, hn, hm, h => by
      rw [Node.dumpSlots, Node.dumpSlots, List.cons.injEq] at h
      have hsame : rest = others := Node.eq_of_dumpSlots_eq hn hm h.2
      rw [hsame]
  | some n :: rest, some m :: others, hn, hm, h => by
      rw [Node.dumpSlots, Node.dumpSlots, List.cons.injEq] at h
      obtain ⟨hn, hrest⟩ := List.forall_mem_cons.mp hn
      obtain ⟨hm, hothers⟩ := List.forall_mem_cons.mp hm
      rw [Node.eq_of_dump_eq hn hm h.1, Node.eq_of_dumpSlots_eq hrest hothers h.2]

end

/-- A list is dumped as a list with empty slots of which none is empty. -/
example : (Node.mk .set [("elts", .list [])] .unknown).dump =
    (Node.mk .set [("elts", .sparse [])] .unknown).dump := rfl

/-! ## Numbers by value -/

/-- Zero has two representations, any other number has one. -/
def Number.Binary64.withoutZeroSign (x : Binary64) : Binary64 :=
  if x.significand = 0 then zero false else x

/-- A scalar up to the sign of a zero. -/
def Scalar.byValue : Scalar → Scalar
  | .float x => .float x.withoutZeroSign
  | s => s

mutual

/-- A node with all numbers in it by value. -/
def Node.byValue : Node → Node
  | .mk construct fields position => .mk construct (Node.fieldsByValue fields) position

/-- Fields with all numbers in them by value. -/
def Node.fieldsByValue : List (String × Value) → List (String × Value)
  | [] => []
  | (slot, value) :: rest => (slot, Value.byValue value) :: Node.fieldsByValue rest

/-- The content of a field with all numbers in it by value. -/
def Value.byValue : Value → Value
  | .node n => .node (Node.byValue n)
  | .list nodes => .list (Node.allByValue nodes)
  | .sparse slots => .sparse (Node.slotsByValue slots)
  | .scalar s => .scalar s.byValue

/-- Nodes with all numbers in them by value. -/
def Node.allByValue : List Node → List Node
  | [] => []
  | n :: rest => Node.byValue n :: Node.allByValue rest

/-- Slots with all numbers in their nodes by value. -/
def Node.slotsByValue : List (Option Node) → List (Option Node)
  | [] => []
  | some n :: rest => some (Node.byValue n) :: Node.slotsByValue rest
  | none :: rest => none :: Node.slotsByValue rest

end

namespace Dump

mutual

/-- A plain tree with all numbers in it by value. -/
def byValue : Dump → Dump
  | .node construct fields position => .node construct (fieldsByValue fields) position
  | .list items => .list (allByValue items)
  | .scalar s => .scalar s.byValue

/-- Fields of a plain tree with all numbers in them by value. -/
def fieldsByValue : List (String × Dump) → List (String × Dump)
  | [] => []
  | (slot, value) :: rest => (slot, byValue value) :: fieldsByValue rest

/-- Plain trees with all numbers in them by value. -/
def allByValue : List Dump → List Dump
  | [] => []
  | item :: rest => byValue item :: allByValue rest

end

end Dump

mutual

theorem Node.dump_byValue : ∀ n : Node, n.byValue.dump = n.dump.byValue
  | .mk construct fields position => by
      rw [Node.byValue, Node.dump, Node.dump, Dump.byValue, Node.dumpFields_byValue fields]

theorem Node.dumpFields_byValue : ∀ fields : List (String × Value),
    Node.dumpFields (Node.fieldsByValue fields) = Dump.fieldsByValue (Node.dumpFields fields)
  | [] => rfl
  | (slot, value) :: rest => by
      rw [Node.fieldsByValue, Node.dumpFields, Node.dumpFields, Dump.fieldsByValue,
        Value.dump_byValue value, Node.dumpFields_byValue rest]

theorem Value.dump_byValue : ∀ value : Value, value.byValue.dump = value.dump.byValue
  | .node n => by rw [Value.byValue, Value.dump, Value.dump, Node.dump_byValue n]
  | .list nodes => by
      rw [Value.byValue, Value.dump, Value.dump, Dump.byValue, Node.dumpAll_byValue nodes]
  | .sparse slots => by
      rw [Value.byValue, Value.dump, Value.dump, Dump.byValue, Node.dumpSlots_byValue slots]
  | .scalar _ => rfl

theorem Node.dumpAll_byValue : ∀ nodes : List Node,
    Node.dumpAll (Node.allByValue nodes) = Dump.allByValue (Node.dumpAll nodes)
  | [] => rfl
  | n :: rest => by
      rw [Node.allByValue, Node.dumpAll, Node.dumpAll, Dump.allByValue, Node.dump_byValue n,
        Node.dumpAll_byValue rest]

theorem Node.dumpSlots_byValue : ∀ slots : List (Option Node),
    Node.dumpSlots (Node.slotsByValue slots) = Dump.allByValue (Node.dumpSlots slots)
  | [] => rfl
  | some n :: rest => by
      rw [Node.slotsByValue, Node.dumpSlots, Node.dumpSlots, Dump.allByValue, Node.dump_byValue n,
        Node.dumpSlots_byValue rest]
  | none :: rest => by
      rw [Node.slotsByValue, Node.dumpSlots, Node.dumpSlots, Dump.allByValue,
        Node.dumpSlots_byValue rest]
      rfl

end

/-- Numbers by value leave lists with empty slots where they are. -/
theorem Value.isSparse_byValue (value : Value) : value.byValue.isSparse = value.isSparse := by
  cases value <;> rw [Value.byValue] <;> rfl

theorem Node.fieldsByValue_eq_map (fields : List (String × Value)) :
    Node.fieldsByValue fields = fields.map fun field => (field.1, field.2.byValue) := by
  induction fields with
  | nil => rfl
  | cons field rest ih => rw [Node.fieldsByValue, ih, List.map_cons]

theorem Node.allByValue_eq_map (nodes : List Node) :
    Node.allByValue nodes = nodes.map Node.byValue := by
  induction nodes with
  | nil => rfl
  | cons n rest ih => rw [Node.allByValue, ih, List.map_cons]

theorem Node.slotsByValue_eq_map (slots : List (Option Node)) :
    Node.slotsByValue slots = slots.map (Option.map Node.byValue) := by
  induction slots with
  | nil => rfl
  | cons slot rest ih => cases slot <;> rw [Node.slotsByValue, ih, List.map_cons] <;> rfl

theorem Value.children_byValue (value : Value) :
    value.byValue.children = value.children.map Node.byValue := by
  cases value with
  | node n => rw [Value.byValue]; rfl
  | list nodes => rw [Value.byValue, Node.allByValue_eq_map]; rfl
  | sparse slots =>
      rw [Value.byValue, Node.slotsByValue_eq_map, Value.children_sparse, Value.children_sparse,
        List.filterMap_map, List.map_filterMap]
      rfl
  | scalar s => rw [Value.byValue]; rfl

theorem Node.children_byValue (n : Node) : n.byValue.children = n.children.map Node.byValue := by
  obtain ⟨construct, fields, position⟩ := n
  rw [Node.byValue, Node.children_mk, Node.children_mk, Node.fieldsByValue_eq_map]
  simp [childrenOf, List.flatMap_map, List.map_flatMap, Value.children_byValue]

theorem Node.SparseInPlace.byValue {n : Node} (h : n.SparseInPlace) :
    n.byValue.SparseInPlace := by
  obtain ⟨construct, fields, position⟩ := n
  intro field hfield
  rw [Node.byValue, Node.fields, Node.fieldsByValue_eq_map, List.mem_map] at hfield
  obtain ⟨source, hsource, rfl⟩ := hfield
  rw [Value.isSparse_byValue]
  exact h source hsource

theorem Node.Everywhere.sparseInPlace_byValue {n : Node} (h : n.Everywhere Node.SparseInPlace) :
    n.byValue.Everywhere Node.SparseInPlace := by
  induction n using Node.induction_children with
  | step n ih =>
      refine Node.everywhere_iff.mpr ⟨h.self.byValue, fun child hchild => ?_⟩
      rw [Node.children_byValue, List.mem_map] at hchild
      obtain ⟨source, hsource, rfl⟩ := hchild
      exact ih source hsource (h.child hsource)

/-! ## Lowered trees -/

theorem sparseInPlace_of_transform {options : Options} {tree : ParseTree} {module : Node}
    (h : transform options tree = .ok module) : module.Everywhere Node.SparseInPlace := by
  have hformed := everywhere_wellFormed_of_reduce (reduce_of_transform h) module (by simp)
  exact fun n hn => (hformed n hn).sparseInPlace

/-- Two trees whose modules have the same dump are lowered to the same module, whether numbers
are compared by their representation or by their value. -/
theorem dump_eq_iff_of_transform {options options' : Options} {tree tree' : ParseTree}
    {first second : Node} (hfirst : transform options tree = .ok first)
    (hsecond : transform options' tree' = .ok second) :
    (first.dump = second.dump ↔ first = second) ∧
      (first.dump.byValue = second.dump.byValue ↔ first.byValue = second.byValue) := by
  have hplace := sparseInPlace_of_transform hfirst
  have hplace' := sparseInPlace_of_transform hsecond
  refine ⟨⟨Node.eq_of_dump_eq hplace hplace', congrArg Node.dump⟩, ?_⟩
  rw [← Node.dump_byValue, ← Node.dump_byValue]
  exact ⟨Node.eq_of_dump_eq hplace.sparseInPlace_byValue hplace'.sparseInPlace_byValue,
    congrArg Node.dump⟩

/-- The module `{**d}`, with what the grammar makes of its one entry. -/
def unpackingModule (entries : ParseTree → List ParseTree) : ParseTree :=
  .rule "file_input" [.rule "expr_stmt" [.rule "dict" (entries (.rule "dict_unpack"
    [.rule "var" [.token ⟨"NAME", "d", .unknown⟩] .unknown] .unknown)) .unknown] .unknown] .unknown

/-- With its entry bare or in a group with a comma, `{**d}` has the same dump. -/
theorem dump_eq_iff_of_transform_unpacking :
    ∃ first second, transform .default (unpackingModule fun entry => [entry]) = .ok first ∧
      transform .default (unpackingModule fun entry =>
        [.rule "entries" [entry, .token ⟨"COMMA", ",", .unknown⟩] .unknown]) = .ok second ∧
      first.dump = second.dump ∧ first = second ∧ first.byValue = second.byValue := by
  have hbare : transform .default (unpackingModule fun entry => [entry]) = .ok _ := rfl
  have hgrouped : transform .default (unpackingModule fun entry =>
      [.rule "entries" [entry, .token ⟨"COMMA", ",", .unknown⟩] .unknown]) = .ok _ := rfl
  obtain ⟨hexact, hvalue⟩ := dump_eq_iff_of_transform hbare hgrouped
  exact ⟨_, _, hbare, hgrouped, rfl, hexact.mp rfl, hvalue.mp rfl⟩

end TreeLowering
