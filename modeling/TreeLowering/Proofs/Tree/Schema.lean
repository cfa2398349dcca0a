/-
# The schema of the catalogue

A node follows the schema when its fields are named exactly as the slots of its
construct, in catalogue order. Fields that are named so can be built into a node, and
the three ways of rebuilding a node, as a target, with one slot replaced and under an
asynchronous twin, need the schema to succeed and keep it.
-/

import Mathlib.Tactic.Tauto
import TreeLowering.Node.Bind
import TreeLowering.Proofs.Outcome
import TreeLowering.Proofs.Tree.Subtrees

namespace TreeLowering

/-- The fields of a node are named by the slots of its construct, in their order. -/
def Node.FollowsSchema (n : Node) : Prop :=
  n.fields.map (·.1) = n.construct.slots

instance : DecidablePred Node.FollowsSchema :=
  fun n => inferInstanceAs (Decidable (n.fields.map (·.1) = n.construct.slots))

/-- Without repetitions in a table, what is looked up is what stands in it. -/
theorem lookup_eq_some_iff_mem {α : Type} {table : List (String × α)} {name : String} {entry : α}
    (h : (table.map Prod.fst).Nodup) : table.lookup name = some entry ↔ (name, entry) ∈ table := by
  induction table with
  | nil => simp
  | cons first rest ih =>
      obtain ⟨other, found⟩ := first
      obtain ⟨hnot, hrest⟩ := List.nodup_cons.mp h
      rw [List.lookup_cons, List.mem_cons, Prod.mk.injEq]
      by_cases hsame : name = other
      · subst hsame
        have hother : (name, entry) ∉ rest := fun hmem => hnot (List.mem_map.mpr ⟨_, hmem, rfl⟩)
        simp [hother, eq_comm]
      · rw [beq_false_of_ne hsame]
        simp [hsame, ih hrest]

namespace Construct

/-- The catalogue is complete. -/
theorem mem_all (construct : Construct) : construct ∈ all := by
  cases construct <;> decide

/-- No construct names a slot twice. -/
theorem slots_nodup (construct : Construct) : construct.slots.Nodup := by
  have hslots : ∀ construct ∈ all, construct.slots.Nodup := by decide
  exact hslots construct construct.mem_all

theorem hasSlot_iff {construct : Construct} {slot : String} :
    construct.hasSlot slot ↔ slot ∈ construct.slots := by
  simp [hasSlot]

/-- Twins have the same slots. -/
theorem slots_of_asyncTwin? {construct twin : Construct}
    (h : construct.asyncTwin? = some twin) : twin.slots = construct.slots := by
  cases construct <;> cases h <;> rfl

/-- The slots that a target rewrites are slots of its construct. -/
theorem mem_slots_of_mem_boundSlots {construct : Construct} (hctx : construct.hasSlot "ctx")
    {slot : String} (h : slot ∈ construct.boundSlots) : slot ∈ construct.slots := by
  revert slot
  cases construct <;> revert hctx <;> decide

/-- Supplied names are without fault when each is a slot that was not named before. -/
theorem suppliedFault?_eq_none_iff {construct : Construct} {seen names : List String} :
    construct.suppliedFault? seen names = none ↔
      names.Nodup ∧ ∀ slot ∈ names, slot ∈ construct.slots ∧ slot ∉ seen := by
  induction names generalizing seen with
  | nil => simp [suppliedFault?]
  | cons slot rest ih =>
      simp only [suppliedFault?, List.contains_eq_mem, decide_eq_true_eq, Bool.not_eq_true',
        List.nodup_cons, List.forall_mem_cons]
      by_cases hseen : slot ∈ seen
      · simp [hseen]
      by_cases hslot : slot ∈ construct.slots
      case neg =>
        have hnot : construct.hasSlot slot = false := by simpa [hasSlot] using hslot
        simp [hseen, hnot, hslot]
      have hhas : construct.hasSlot slot := hasSlot_iff.mpr hslot
      simp only [hseen, hhas, Bool.true_eq_false, if_false, ih, List.mem_cons, not_or]
      constructor
      · rintro ⟨hnodup, hrest⟩
        exact ⟨⟨fun hmem => (hrest slot hmem).2.1 rfl, hnodup⟩, ⟨hslot, not_false⟩,
          fun other hother => ⟨(hrest other hother).1, (hrest other hother).2.2⟩⟩
      · rintro ⟨⟨hnot, hnodup⟩, -, hrest⟩
        refine ⟨hnodup, fun other hother => ⟨(hrest other hother).1, ?_, (hrest other hother).2⟩⟩
        rintro rfl
        exact hnot hother

/-- Names that are exactly the slots have no fault. -/
theorem fault?_slots (construct : Construct) : construct.fault? construct.slots = none := by
  have hsupplied : construct.suppliedFault? [] construct.slots = none :=
    suppliedFault?_eq_none_iff.mpr
      ⟨construct.slots_nodup, fun _ hslot => ⟨hslot, List.not_mem_nil⟩⟩
  have hmissing : construct.missingFault? construct.slots = none := by
    simp [missingFault?]
  rw [fault?, hsupplied, hmissing, Option.or_none]

end Construct

/-- Fields that already stand in slot order stay as they are. -/
theorem arrange_of_map_eq {slots : List String} {fields : List (String × Value)}
    (hnodup : slots.Nodup) (h : fields.map (·.1) = slots) : arrange slots fields = fields := by
  induction slots generalizing fields with
  | nil =>
      rw [List.map_eq_nil_iff] at h
      subst h
      rfl
  | cons slot rest ih =>
      obtain ⟨⟨name, value⟩, others, rfl, rfl, hothers⟩ := List.map_eq_cons_iff.mp h
      obtain ⟨hnot, hrest⟩ := List.nodup_cons.mp hnodup
      have hskip : arrange rest ((name, value) :: others) = arrange rest others := by
        apply List.filterMap_congr
        intro other hother
        have hne : other ≠ name := fun heq => hnot (heq ▸ hother)
        rw [List.lookup_cons, beq_false_of_ne hne]
      have hfirst : ((name, value) :: others).lookup name = some value := by
        rw [List.lookup_cons, beq_self_eq_true]
      have htail := ih hrest hothers
      simp only [arrange] at hskip htail ⊢
      rw [List.filterMap_cons, hfirst, hskip, htail]
      rfl

namespace Node

/-- Fields named by the slots of a construct build the node that has them. -/
theorem build_of_slots {construct : Construct} {fields : List (String × Value)}
    (h : fields.map (·.1) = construct.slots) (position : Position) :
    build construct position fields = .ok (.mk construct fields position) := by
  rw [build, h, construct.fault?_slots, arrange_of_map_eq construct.slots_nodup h]

/-! ## Replacing one slot -/

/-- Replacing a slot keeps everything before and behind it. -/
theorem exists_of_replaceField?_eq_some {slot : String} {value : Value}
    {fields replaced : List (String × Value)}
    (h : replaceField? slot value fields = some replaced) :
    ∃ before old after, fields = before ++ (slot, old) :: after ∧
      replaced = before ++ (slot, value) :: after := by
  induction fields generalizing replaced with
  | nil => cases h
  | cons field rest ih =>
      obtain ⟨name, old⟩ := field
      rw [replaceField?] at h
      split at h
      case isTrue hname =>
        cases h
        exact ⟨[], old, rest, by rw [hname, List.nil_append], by rw [hname, List.nil_append]⟩
      case isFalse =>
        obtain ⟨others, hothers, rfl⟩ := Option.map_eq_some_iff.mp h
        obtain ⟨before, found, after, rfl, rfl⟩ := ih hothers
        exact ⟨(name, old) :: before, found, after, rfl, rfl⟩

/-- A slot that is replaced was there, and all slots keep their names. -/
theorem map_fst_of_replaceField? {slot : String} {value : Value}
    {fields replaced : List (String × Value)}
    (h : replaceField? slot value fields = some replaced) :
    slot ∈ fields.map (·.1) ∧ replaced.map (·.1) = fields.map (·.1) := by
  obtain ⟨before, old, after, rfl, rfl⟩ := exists_of_replaceField?_eq_some h
  simp

/-- The other fields stay what they are. -/
theorem mem_of_replaceField? {slot : String} {value : Value}
    {fields replaced : List (String × Value)} (h : replaceField? slot value fields = some replaced)
    {field : String × Value} (hfield : field ∈ replaced) (hother : field.1 ≠ slot) :
    field ∈ fields := by
  obtain ⟨before, old, after, rfl, rfl⟩ := exists_of_replaceField?_eq_some h
  simp only [List.mem_append, List.mem_cons] at hfield ⊢
  rcases hfield with hbefore | rfl | hafter
  · exact .inl hbefore
  · exact absurd rfl hother
  · exact .inr (.inr hafter)

theorem mem_childrenOf_of_replaceField? {slot : String} {value : Value}
    {fields replaced : List (String × Value)} (h : replaceField? slot value fields = some replaced)
    {child : Node} (hchild : child ∈ childrenOf replaced) :
    child ∈ childrenOf fields ∨ child ∈ value.children := by
  obtain ⟨before, old, after, rfl, rfl⟩ := exists_of_replaceField?_eq_some h
  simp only [childrenOf_append, childrenOf_cons, List.mem_append] at hchild ⊢
  tauto

theorem exists_replaceField?_eq_some {slot : String} (value : Value)
    {fields : List (String × Value)} (h : slot ∈ fields.map (·.1)) :
    ∃ replaced, replaceField? slot value fields = some replaced := by
  induction fields with
  | nil => simp at h
  | cons field rest ih =>
      obtain ⟨name, old⟩ := field
      by_cases hname : name = slot
      · exact ⟨(name, value) :: rest, by rw [replaceField?, if_pos hname]⟩
      · have hrest : slot ∈ rest.map (·.1) := by
          simpa [Ne.symm hname] using h
        obtain ⟨replaced, hreplaced⟩ := ih hrest
        exact ⟨(name, old) :: replaced, by rw [replaceField?, if_neg hname, hreplaced]; rfl⟩

theorem exists_of_setField_eq_ok {n m : Node} {slot : String} {value : Value}
    (h : n.setField slot value = .ok m) :
    ∃ replaced, replaceField? slot value n.fields = some replaced ∧
      m = .mk n.construct replaced n.position := by
  rw [setField] at h
  split at h
  · rename_i replaced hreplaced
    cases h
    exact ⟨replaced, hreplaced, rfl⟩
  · cases h

/-- A slot of the schema can be replaced. -/
theorem setField_of_followsSchema {n : Node} (h : n.FollowsSchema) {slot : String}
    (hslot : slot ∈ n.construct.slots) (value : Value) : ∃ m, n.setField slot value = .ok m := by
  rw [← h] at hslot
  obtain ⟨replaced, hreplaced⟩ := exists_replaceField?_eq_some value hslot
  exact ⟨.mk n.construct replaced n.position, by rw [setField, hreplaced]⟩

/-- A node has no fields but those of the slots of its construct. -/
theorem mem_slots_of_get? {n : Node} (h : n.FollowsSchema) {slot : String} {value : Value}
    (hget : n.get? slot = some value) : slot ∈ n.construct.slots := by
  rw [← h]
  by_contra hnot
  have hnone : n.get? slot = none := by
    refine List.lookup_eq_none_iff.mpr fun field hfield => ?_
    rw [bne_iff_ne]
    rintro rfl
    exact hnot (List.mem_map_of_mem hfield)
  cases hget.symm.trans hnone

/-! ## Targets -/

variable {usage : Usage}

theorem bindAll_eq_mapM (usage : Usage) (nodes : List Node) :
    bindAll usage nodes = nodes.mapM (bind usage) := by
  induction nodes with
  | nil => rfl
  | cons n rest ih =>
      rw [bindAll, List.mapM_cons, ih]
      cases n.bind usage with
      | error e => rfl
      | ok bound => cases rest.mapM (bind usage) <;> rfl

/-- In the content of a field of a target, each node stays or becomes a target. -/
theorem bindField_yields (construct : Construct) (slot : String) {value : Value}
    {related : Node → Node → Prop}
    (h : ∀ n ∈ value.children, Yields (n.bind usage) (related n)) :
    Yields (bindField usage construct slot value) fun bound =>
      ∀ m ∈ bound.children, ∃ n ∈ value.children, m = n ∨ related n m := by
  have hsame : ∀ m ∈ value.children, ∃ n ∈ value.children, m = n ∨ related n m :=
    fun m hm => ⟨m, hm, .inl rfl⟩
  rw [bindField.eq_def]
  split
  · exact .ok (by simp)
  · cases value with
    | node n =>
        dsimp only
        split
        · apply (h n (by simp)).map
          intro m hm
          simpa using Or.inr hm
        · exact .ok hsame
    | list nodes =>
        dsimp only
        split
        · rw [bindAll_eq_mapM]
          apply (Yields.mapM h).map
          intro bound hbound m hm
          obtain ⟨n, hn, hnm⟩ := exists_of_forall₂_right hbound hm
          exact ⟨n, hn, .inr hnm⟩
        · exact .ok hsame
    | sparse slots => exact .ok hsame
    | scalar s => exact .ok hsame

theorem bindFields_yields (construct : Construct) {fields : List (String × Value)}
    {related : Node → Node → Prop}
    (h : ∀ n ∈ childrenOf fields, Yields (n.bind usage) (related n)) :
    Yields (bindFields usage construct fields) fun bound =>
      bound.map (·.1) = fields.map (·.1) ∧
        ∀ m ∈ childrenOf bound, ∃ n ∈ childrenOf fields, m = n ∨ related n m := by
  induction fields with
  | nil => exact .ok (by simp)
  | cons field rest ih =>
      obtain ⟨slot, value⟩ := field
      simp only [childrenOf_cons, List.mem_append] at h
      have hfirst := bindField_yields construct slot fun n hn =>
        h n (.inl hn)
      have hothers := ih fun n hn => h n (.inr hn)
      rw [bindFields]
      cases hf : bindField usage construct slot value with
      | error e => exact hfirst.of_error hf
      | ok bound =>
          cases ho : bindFields usage construct rest with
          | error e => exact hothers.of_error ho
          | ok others =>
              obtain ⟨hnames, hchildren⟩ := hothers.of_ok ho
              refine .ok ⟨by simp [hnames], fun m hm => ?_⟩
              simp only [childrenOf_cons, List.mem_append] at hm ⊢
              rcases hm with hm | hm
              · obtain ⟨n, hn, hnm⟩ := hfirst.of_ok hf m hm
                exact ⟨n, .inl hn, hnm⟩
              · obtain ⟨n, hn, hnm⟩ := hchildren m hm
                exact ⟨n, .inr hn, hnm⟩

/-- A node that follows the schema becomes a target or is reported, and as a target it
follows the schema and has a usage. -/
theorem bind_yields {n : Node} (h : n.Everywhere FollowsSchema) :
    Yields (n.bind usage) fun m =>
      m.construct = n.construct ∧ m.position = n.position ∧ n.construct.hasSlot "ctx" ∧
        m.Everywhere FollowsSchema := by
  induction n using induction_children with
  | step n ih =>
      obtain ⟨construct, fields, position⟩ := n
      have hnames : fields.map (·.1) = construct.slots := h.self
      rw [bind]
      split
      case isFalse => exact .error trivial
      case isTrue hctx =>
        have hslots : (construct.boundSlots.find? fun slot =>
            !(fields.map (·.1)).contains slot) = none := by
          rw [List.find?_eq_none]
          intro slot hslot
          have hmem := Construct.mem_slots_of_mem_boundSlots hctx hslot
          simp [hnames, hmem]
        have hfields := bindFields_yields construct fun child hchild =>
          ih child hchild (h.child hchild)
        simp only [hslots]
        cases hb : bindFields usage construct fields with
        | error e => exact hfields.of_error hb
        | ok bound =>
            obtain ⟨hkept, hchildren⟩ := hfields.of_ok hb
            refine .ok ⟨rfl, rfl, hctx, everywhere_mk_iff.mpr ⟨hkept.trans hnames, ?_⟩⟩
            intro m hm
            obtain ⟨child, hchild, rfl | hbound⟩ := hchildren m hm
            · exact h.child hchild
            · exact hbound.2.2.2

end Node

end TreeLowering
