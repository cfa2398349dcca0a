/-
# Groups of nodes

A group stands for a list of nodes: it is a node, a list of nodes, or a fragment that holds
nothing else once it is flattened. Blocks, handlers and imported names are given as groups.
A statement passes over the placeholders among its parts.
-/

import TreeLowering.Proofs.Placeholder

namespace TreeLowering.Reduced

variable {item : Reduced} {items : List Reduced} {nodes : List Node} {what : String}

/-! ## Placeholders -/

/-- Whether a part is a placeholder. -/
def isAbsent : Reduced → Bool
  | .absent => true
  | _ => false

/-- The parts that are no placeholders. -/
def present (items : List Reduced) : List Reduced :=
  items.filter fun item => !item.isAbsent

@[simp]
theorem present_nil : present [] = [] := rfl

@[simp]
theorem present_absent_cons : present (.absent :: items) = present items := rfl

theorem present_cons (h : item.isAbsent = false) :
    present (item :: items) = item :: present items := by
  rw [present, List.filter_cons, h]
  rfl

theorem present_append (first rest : List Reduced) :
    present (first ++ rest) = present first ++ present rest :=
  List.filter_append ..

theorem forall_mem_present_iff {holds : Reduced → Prop} :
    (∀ item ∈ present items, holds item) ↔ ∀ item ∈ items, item.isAbsent ∨ holds item := by
  simp [present, or_iff_not_imp_left]

/-- What does not see a single placeholder among parts sees the other parts only. -/
theorem eq_present {α : Type} {read : List Reduced → α}
    (within : ∀ given others, read (given ++ .absent :: others) = read (given ++ others))
    (items : List Reduced) : read (present items) = read items := by
  suffices h : ∀ given, read (given ++ present items) = read (given ++ items) from h []
  induction items with
  | nil => exact fun given => rfl
  | cons item rest ih =>
      intro given
      cases item with
      | absent => rw [present_absent_cons, ih, within]
      | _ =>
          rw [present_cons rfl, List.append_cons, ih, ← List.append_cons]

/-! ## Clauses -/

/-- The clause of a block that a statement may have. -/
def optionalClause (make : List Node → Clause) (block? : Option (List Node)) : List Reduced :=
  (block?.map fun block => .clause (make block)).toList

/-! ## Groups -/

/-- Whether a part is a node or a list of nodes. -/
def isNodes : Reduced → Bool
  | .node _ | .nodes _ => true
  | _ => false

/-- Whether a part stands for a list of nodes. -/
def isGroup : Reduced → Bool
  | .node _ | .nodes _ => true
  | .fragment _ children _ => (flatten children).all isNodes
  | _ => false

mutual

theorem gatherItem_eq_ok_iff : ∀ {item : Reduced} {found : List Node},
    gatherItem item = .ok found ↔ (∀ part ∈ item.flat, part.isNodes) ∧ item.roots = found
  | .node _, _ | .nodes _, _ => by simp [gatherItem, flat, isNodes]
  | .fragment _ children _, _ => by rw [gatherItem, flat, roots, gather_eq_ok_iff]
  | .token _, _ | .absent, _ => by simp [gatherItem, flat]
  | .operator _, _ | .pair _ _, _ | .unpack _, _ | .dotted _, _ | .level _, _ | .clause _, _
  | .parameter _, _ => by simp [gatherItem, flat, isNodes]

/-- The nodes of a run are gathered when it holds nothing else once it is flattened. -/
theorem gather_eq_ok_iff : ∀ {items : List Reduced} {found : List Node},
    gather items = .ok found ↔ (∀ part ∈ flatten items, part.isNodes) ∧ rootsOf items = found
  | [], _ => by simp [gather, flatten]
  | item :: rest, found => by
      have hfirst : ∀ first, gatherItem item = .ok first ↔ _ := fun _ => gatherItem_eq_ok_iff
      have hrest : ∀ others, gather rest = .ok others ↔ _ := fun _ => gather_eq_ok_iff
      simp only [gather_cons, bind_eq_ok_iff, hfirst, hrest, flatten, rootsOf,
        List.forall_mem_append, Except.ok.injEq]
      constructor
      · rintro ⟨_, ⟨hitem, rfl⟩, _, ⟨hothers, rfl⟩, rfl⟩
        exact ⟨⟨hitem, hothers⟩, rfl⟩
      · rintro ⟨⟨hitem, hothers⟩, rfl⟩
        exact ⟨_, ⟨hitem, rfl⟩, _, ⟨hothers, rfl⟩, rfl⟩

end

/-- A part that carries something is gathered when it is a group. -/
theorem gatherItem_eq_ok_iff_isGroup (h : item.isFiller = false) :
    gatherItem item = .ok nodes ↔ item.isGroup ∧ item.roots = nodes := by
  rw [gatherItem_eq_ok_iff]
  cases item with
  | token | absent => cases h
  | fragment => simp [isGroup, flat]
  | _ => simp [isGroup, flat, isNodes]

theorem gatherItem_of_isGroup (h : item.isGroup) : gatherItem item = .ok item.roots := by
  have hfiller : item.isFiller = false := by cases item <;> first | rfl | cases h
  exact (gatherItem_eq_ok_iff_isGroup hfiller).mpr ⟨h, rfl⟩

theorem present_singleton_of_isGroup (h : item.isGroup) : present [item] = [item] := by
  cases item <;> first | rfl | cases h

/-- A block is a group. -/
theorem block_eq_ok_iff {part? : Option Reduced} :
    block what part? = .ok nodes ↔
      ∃ part, part? = some part ∧ part.isGroup ∧ part.roots = nodes := by
  cases part? with
  | none => simp [block.eq_def]
  | some part =>
      cases part with
      | fragment name children position =>
          have hgather : gatherItem (.fragment name children position) = .ok nodes ↔ _ :=
            gatherItem_eq_ok_iff_isGroup rfl
          simp [block.eq_def, hgather]
      | _ => simp [block.eq_def, isGroup]

theorem find?_other_eq_none_iff {construct : Construct} :
    (nodes.find? fun n => n.construct ≠ construct) = none ↔
      ∀ n ∈ nodes, n.construct = construct := by
  simp

theorem allOf_eq_ok_iff {construct : Construct} {kept : List Node} :
    allOf construct what nodes = .ok kept ↔ SomeOf construct nodes ∧ nodes = kept := by
  rw [allOf, SomeOf, ← find?_other_eq_none_iff]
  cases nodes with
  | nil => simp
  | cons n rest =>
      split
      case isTrue hempty => cases hempty
      case isFalse =>
        split
        case h_1 stray hstray =>
          rw [hstray]
          simp
        case h_2 hnone =>
          rw [and_iff_right ⟨List.cons_ne_nil n rest, hnone⟩, Except.ok.injEq]

end TreeLowering.Reduced
