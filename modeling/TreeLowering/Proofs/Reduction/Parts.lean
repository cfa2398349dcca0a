/-
# Nodes in the parts of a reduction

What each way of taking parts out of a reduction says about the nodes at their top.
Nodes that were only read for their identifier are names; every other node of the parts
is handed on. A handler takes its parts by index or from the end, so the nodes of all
parts are put together again from the nodes of the parts it took.
-/

import TreeLowering.Lowering.Reduction
import TreeLowering.Proofs.Tree.WellFormed

namespace TreeLowering

open TreeLowering.Reduced

/-- All nodes are names. -/
def Names (nodes : List Node) : Prop :=
  ∀ n ∈ nodes, n.construct = .name

theorem names_nil : Names [] := by
  simp [Names]

theorem Names.append {first rest : List Node} (hfirst : Names first) (hrest : Names rest) :
    Names (first ++ rest) :=
  fun n hn => (List.mem_append.mp hn).elim (hfirst n) (hrest n)

namespace Reduced

variable {items : List Reduced} {first rest : List Node}

/-! ## Taking parts in turn -/

theorem drop_eq_toList_append (items : List Reduced) (i : Nat) :
    items.drop i = items[i]?.toList ++ items.drop (i + 1) := by
  cases h : items[i]? with
  | none =>
      have hlen : items.length ≤ i := List.getElem?_eq_none_iff.mp h
      rw [List.drop_eq_nil_of_le hlen, List.drop_eq_nil_of_le (Nat.le_succ_of_le hlen)]
      rfl
  | some item =>
      obtain ⟨hlt, rfl⟩ := List.getElem?_eq_some_iff.mp h
      exact List.drop_eq_getElem_cons hlt

/-- The nodes from a part on are those of the part and those behind it. -/
theorem rootsOf_drop {i : Nat} (hfirst : rootsOf items[i]?.toList = first)
    (hrest : rootsOf (items.drop (i + 1)) = rest) :
    rootsOf (items.drop i) = first ++ rest := by
  rw [drop_eq_toList_append, rootsOf_append, hfirst, hrest]

/-- The nodes of all parts are those of the first one and those behind it. -/
theorem rootsOf_first (hfirst : rootsOf items[0]?.toList = first)
    (hrest : rootsOf (items.drop 1) = rest) : rootsOf items = first ++ rest :=
  rootsOf_drop (i := 0) hfirst hrest

theorem rootsOf_end {i : Nat} (h : items.drop i = []) : rootsOf (items.drop i) = [] := by
  rw [h, rootsOf]

theorem dropLast_append_toList (items : List Reduced) :
    items.dropLast ++ items.getLast?.toList = items := by
  cases h : items.getLast? with
  | none => simp [List.getLast?_eq_none_iff.mp h]
  | some last => exact List.dropLast_append_getLast? last h

/-- The nodes of all parts are those before the last one and those of the last one. -/
theorem rootsOf_last (hrest : rootsOf items.dropLast = rest)
    (hlast : rootsOf items.getLast?.toList = first) : rootsOf items = rest ++ first := by
  rw [← hrest, ← hlast, ← rootsOf_append, dropLast_append_toList]

theorem rootsOf_of_head? {item : Reduced} (h : items.head? = some item) :
    rootsOf items[0]?.toList = item.roots := by
  rw [← List.head?_eq_getElem?, h]
  exact List.append_nil _

/-- Parts that hand on no nodes have none together. -/
theorem rootsOf_eq_nil (h : ∀ item ∈ items, item.roots = []) : rootsOf items = [] := by
  rw [rootsOf_eq_flatMap]
  exact List.flatMap_eq_nil_iff.mpr h

/-- Parts that are names have names alone. -/
theorem names_rootsOf (h : ∀ item ∈ items, Names item.roots) : Names (rootsOf items) := by
  intro n hn
  obtain ⟨item, hitem, hroot⟩ := mem_rootsOf.mp hn
  exact h item hitem n hroot

/-! ## Single parts -/

variable (what : String) (item : Option Reduced)

theorem expectNode_present :
    Yields (expectNode what item) fun n => item = some (.node n) := by
  rw [expectNode.eq_def]
  split
  · exact .ok rfl
  · exact .error trivial

theorem expectNode_yields :
    Yields (expectNode what item) fun n => rootsOf item.toList = [n] := by
  apply (expectNode_present what item).mono
  rintro n rfl
  rfl

theorem optionalNode_yields :
    Yields (optionalNode what item) fun n => rootsOf item.toList = n.toList := by
  rw [optionalNode.eq_def]
  split
  · exact .ok rfl
  · exact .ok rfl
  · exact .ok rfl
  · exact .error trivial

theorem identifier_yields :
    Yields (identifier what item) fun _ => Names (rootsOf item.toList) := by
  rw [identifier.eq_def]
  split
  · exact .ok names_nil
  · rename_i n
    rw [nameText]
    split
    case isTrue hname =>
      split
      · exact .ok (by simpa [Names] using hname)
      · exact .error trivial
    case isFalse => exact .error trivial
  · exact .error trivial

theorem optionalIdentifier_yields :
    Yields (optionalIdentifier what item) fun _ => Names (rootsOf item.toList) := by
  rw [optionalIdentifier.eq_def]
  split
  · exact .ok names_nil
  · exact .ok names_nil
  · exact (identifier_yields what _).map fun _ h => h

theorem noMore_yields (items : List Reduced) : Yields (noMore items) fun _ => items = [] := by
  cases items with
  | nil => exact .ok rfl
  | cons extra rest => exact .error trivial

theorem onlyTokens_yields (items : List Reduced) :
    Yields (onlyTokens what items) fun _ => rootsOf items = [] := by
  rw [onlyTokens]
  split
  · rename_i hnone
    refine .ok (List.eq_nil_iff_forall_not_mem.mpr fun n hn => ?_)
    obtain ⟨part, hpart, hroot⟩ := mem_rootsOf.mp hn
    have htoken := List.find?_eq_none.mp hnone part hpart
    cases part <;> simp_all [isToken]
  · exact .error trivial

/-! ## Gathered nodes -/

theorem gather_cons (item : Reduced) (rest : List Reduced) :
    gather (item :: rest) =
      gatherItem item >>= fun first => gather rest >>= fun others => .ok (first ++ others) := by
  rw [gather]
  cases gatherItem item with
  | error e => rfl
  | ok first => cases gather rest <;> rfl

mutual

/-- Gathering keeps the nodes of a part as they are. -/
theorem gatherItem_yields : ∀ item : Reduced,
    Yields (gatherItem item) fun nodes => item.roots = nodes
  | .node _ => .ok rfl
  | .nodes _ => .ok rfl
  | .fragment _ children _ => by
      rw [gatherItem, roots]
      exact gather_yields children
  | .token _ => .ok rfl
  | .absent => .ok rfl
  | .operator _ => .error trivial
  | .pair _ _ => .error trivial
  | .unpack _ => .error trivial
  | .dotted _ => .error trivial
  | .level _ => .error trivial
  | .clause _ => .error trivial
  | .parameter _ => .error trivial

theorem gather_yields : ∀ items : List Reduced,
    Yields (gather items) fun nodes => rootsOf items = nodes
  | [] => .ok rfl
  | item :: rest => by
      have hfirst := gatherItem_yields item
      have hrest := gather_yields rest
      rw [gather, rootsOf]
      cases hf : gatherItem item with
      | error e => exact hfirst.of_error hf
      | ok first =>
          cases hr : gather rest with
          | error e => exact hrest.of_error hr
          | ok others => exact .ok (by rw [hfirst.of_ok hf, hrest.of_ok hr])

end

theorem allOf_yields (construct : Construct) (nodes : List Node) :
    Yields (allOf construct what nodes) fun kept => kept = nodes ∧ SomeOf construct nodes := by
  rw [allOf]
  split
  · exact .error trivial
  · rename_i hne
    split
    · exact .error trivial
    · rename_i hnone
      refine .ok ⟨rfl, by simpa using hne, fun n hn => ?_⟩
      simpa using List.find?_eq_none.mp hnone n hn

theorem block_yields : Yields (block what item) fun nodes => rootsOf item.toList = nodes := by
  rw [block.eq_def]
  split
  · exact .ok rfl
  · exact .ok (List.append_nil _)
  · exact (gatherItem_yields _).mono fun nodes h => by simpa using h
  · exact .error trivial

theorem elseBlock_yields : Yields (elseBlock item) fun nodes => rootsOf item.toList = nodes := by
  rw [elseBlock.eq_def]
  split
  · exact .ok rfl
  · exact .ok rfl
  · exact .ok (List.append_nil _)
  · exact block_yields _ _

end Reduced

/-! ## Expressions -/

/-- Nodes in the place of an expression: one stands for itself, others make a tuple. -/
inductive Expresses (r : Reduction) : List Node → Node → Prop
  | single (n : Node) : Expresses r [n] n
  | tuple (elements : List Node) :
      Expresses r elements
        (.mk .tuple [("elts", .list elements), ("ctx", .usage .read)] r.position)

namespace Reduction

variable (r : Reduction) (what : String)

/-- A reduction builds the node of fields that are named by the slots. -/
theorem node_of_slots {construct : Construct} {fields : List (String × Value)}
    (h : fields.map (·.1) = construct.slots) :
    r.node construct fields = .ok (.mk construct fields r.position) :=
  Node.build_of_slots h r.position

theorem build_of_slots {construct : Construct} {fields : List (String × Value)}
    (h : fields.map (·.1) = construct.slots) :
    r.build construct fields = .ok (.node (.mk construct fields r.position)) := by
  rw [build, r.node_of_slots h]
  rfl

theorem tuple_yields (elements : List Node) : Yields (r.tuple elements) (Expresses r elements) := by
  rw [tuple, r.node_of_slots rfl]
  exact .ok (.tuple elements)

theorem bareList_yields (item : Reduced) :
    Yields (r.bareList what item) (Expresses r item.roots) := by
  rw [bareList]
  apply Yields.bind (gatherItem_yields item)
  intro nodes hnodes
  subst hnodes
  split
  · exact .error trivial
  · rename_i element hone
    rw [hone]
    split
    · exact r.tuple_yields [element]
    · exact .ok (.single element)
  · exact r.tuple_yields _

theorem expression_yields (item : Option Reduced) :
    Yields (r.expression what item) (Expresses r (rootsOf item.toList)) := by
  rw [expression.eq_def]
  split
  · exact .ok (.single _)
  · exact (r.bareList_yields what _).mono fun n h => by simpa using h
  · exact (r.bareList_yields what _).mono fun n h => by simpa using h
  · exact .error trivial

end Reduction

end TreeLowering
