/-
# Blocks of statements

Some constructs run a block of statements, and a backend accepts none of them without a
statement in it. That a block is filled is seen from outside: binding keeps it, since it does
not depend on what the statements are, and so do replacing another slot and changing a
statement into its twin.
-/

import TreeLowering.Proofs.Tree.Binding

namespace TreeLowering

/-- Whether a construct runs a block that must hold a statement. -/
def Construct.runsBlock : Construct → Bool
  | .ifStmt | .forStmt | .asyncFor | .whileStmt | .withStmt | .asyncWith | .tryStmt
  | .exceptHandler | .functionDef | .asyncFunctionDef | .classDef => true
  | _ => false

/-- The nodes in the fields of one name. -/
def heldIn (slot : String) (fields : List (String × Value)) : List Node :=
  childrenOf (fields.filter (·.1 = slot))

namespace Node

variable {n m : Node} {slot other : String} {value : Value} {usage : Usage}

/-- The nodes that a node holds in one slot. -/
def held (n : Node) (slot : String) : List Node :=
  heldIn slot n.fields

/-- The block that a node runs holds a statement, and a `try` statement has a handler or a
statement to be run at its end. -/
structure Filled (n : Node) : Prop where
  body : n.construct.runsBlock → n.held "body" ≠ []
  guarded : n.construct = .tryStmt → n.held "handlers" ≠ [] ∨ n.held "finalbody" ≠ []

theorem filled_iff : n.Filled ↔ (n.construct.runsBlock → n.held "body" ≠ []) ∧
    (n.construct = .tryStmt → n.held "handlers" ≠ [] ∨ n.held "finalbody" ≠ []) :=
  ⟨fun h => ⟨h.body, h.guarded⟩, fun h => ⟨h.1, h.2⟩⟩

theorem filled_of_runsBlock_eq_false (h : n.construct.runsBlock = false) : n.Filled where
  body hruns := by simp [h] at hruns
  guarded htry := by
    rw [htry] at h
    cases h

/-- A node of any other construct than `try` is filled if its block is. -/
theorem filled_iff_held_body (hruns : n.construct.runsBlock) (htry : n.construct ≠ .tryStmt) :
    n.Filled ↔ n.held "body" ≠ [] :=
  ⟨fun h => h.body hruns, fun h => ⟨fun _ => h, fun hsame => absurd hsame htry⟩⟩

/-! ## What keeps blocks filled -/

theorem held_eq_nil_iff : n.held slot = [] ↔ ∀ position, (slot, position) ∉ n.spread := by
  simp only [List.eq_nil_iff_forall_not_mem, mem_spread, held, heldIn, mem_childrenOf,
    List.mem_filter, decide_eq_true_eq]
  constructor
  · rintro h position ⟨field, hfield, hslot, child, hchild, -⟩
    exact h child ⟨field.1, field.2, ⟨hfield, hslot⟩, hchild⟩
  · rintro h child ⟨name, value, ⟨hfield, hslot⟩, hchild⟩
    exact h child.position ⟨(name, value), hfield, hslot, child, hchild, rfl⟩

/-- Outlines are all that matters to filled blocks. -/
theorem Filled.of_outline (houtline : SameOutline n m) (h : n.Filled) : m.Filled := by
  have hheld (slot : String) : m.held slot = [] ↔ n.held slot = [] := by
    rw [held_eq_nil_iff, held_eq_nil_iff, houtline.spread_eq]
  rw [filled_iff, houtline.construct_eq]
  simp only [ne_eq, hheld]
  exact filled_iff.mp h

theorem everywhere_filled_of_bind (hformed : n.Everywhere WellFormed) (h : n.Everywhere Filled)
    (hbound : n.bind usage = .ok m) : m.Everywhere Filled :=
  bind_everywhere (fun houtline => Filled.of_outline houtline) hformed hbound h

/-- Replacing a slot leaves the others as they are. -/
theorem held_of_setField (h : n.setField slot value = .ok m) (hne : other ≠ slot) :
    m.held other = n.held other := by
  obtain ⟨replaced, hreplaced, rfl⟩ := exists_of_setField_eq_ok h
  obtain ⟨before, old, after, hfields, rfl⟩ := exists_of_replaceField?_eq_some hreplaced
  rw [held, held, hfields, heldIn, heldIn, fields, List.filter_append, List.filter_append,
    List.filter_cons_of_neg (by simpa using Ne.symm hne),
    List.filter_cons_of_neg (by simpa using Ne.symm hne)]

theorem Filled.of_decorated (h : n.Filled)
    (hset : n.setField "decorator_list" value = .ok m) : m.Filled := by
  have hconstruct : m.construct = n.construct := by
    obtain ⟨replaced, -, rfl⟩ := exists_of_setField_eq_ok hset
    rfl
  rw [filled_iff, hconstruct, held_of_setField hset (by decide), held_of_setField hset (by decide),
    held_of_setField hset (by decide)]
  exact filled_iff.mp h

/-- The twin of a statement runs the same block. -/
theorem Filled.of_twin {twin : Construct} (h : n.Filled)
    (htwin : n.construct.asyncTwin? = some twin) (position : Position) :
    (Node.mk twin n.fields position).Filled := by
  obtain ⟨construct, fields, start⟩ := n
  cases construct <;> cases htwin <;> exact ⟨fun _ => h.body rfl, by rintro ⟨⟩⟩

end Node

end TreeLowering
