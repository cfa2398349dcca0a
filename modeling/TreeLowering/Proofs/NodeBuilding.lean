/-
# Building nodes from fields

A node can be built from exactly those lists of fields whose names are the slots of its
construct in some order, and the order makes no difference to the node. Any other list is
refused for the fault that a reader of the names meets first: a name that came before or that
is no slot, and when the names are good as far as they go, the first slot that they leave out.
-/

import TreeLowering.Proofs.Tree.Schema

namespace TreeLowering

variable {construct : Construct} {position : Position} {names seen : List String}
  {fields : List (String × Value)} {fault : SlotFault}

/-! ## Faults of a list of names -/

namespace Construct

/-- The names are slots of the construct, and none of them comes twice. -/
def NamesSlots (construct : Construct) (names : List String) : Prop :=
  names.Nodup ∧ ∀ slot ∈ names, slot ∈ construct.slots

/-- The fault of a list of names that is met first. The names are read from left to right, and
only when nothing is wrong with any of them are the slots gone through, in catalogue order. -/
inductive FirstFault (construct : Construct) : List String → SlotFault → Prop
  | repeated {before : List String} {slot : String} (good : construct.NamesSlots before)
      (again : slot ∈ before) (after : List String) :
      FirstFault construct (before ++ slot :: after) (.repeated slot)
  | unknown {before : List String} {slot : String} (good : construct.NamesSlots before)
      (stray : slot ∉ construct.slots) (after : List String) :
      FirstFault construct (before ++ slot :: after) (.unknown slot)
  | missing {names before after : List String} {slot : String}
      (good : construct.NamesSlots names) (order : construct.slots = before ++ slot :: after)
      (supplied : ∀ other ∈ before, other ∈ names) (left_out : slot ∉ names) :
      FirstFault construct names (.missing slot)

theorem suppliedFault?_nil_eq_none_iff :
    construct.suppliedFault? [] names = none ↔ construct.NamesSlots names := by
  simp [suppliedFault?_eq_none_iff, NamesSlots]

/-- Names are judged one after the other, each by those before it. -/
theorem suppliedFault?_append (before after : List String) :
    construct.suppliedFault? seen (before ++ after) =
      (construct.suppliedFault? seen before).or
        (construct.suppliedFault? (before.reverse ++ seen) after) := by
  induction before generalizing seen with
  | nil => rfl
  | cons slot rest ih =>
      simp only [List.cons_append, suppliedFault?]
      split
      · rfl
      split
      · rfl
      · rw [ih, List.reverse_cons, List.append_assoc, List.singleton_append]

/-- A name is at fault if it came before or is no slot. -/
theorem suppliedFault?_cons_eq_some (slot : String) (rest : List String)
    (h : slot ∈ seen ∨ slot ∉ construct.slots) :
    construct.suppliedFault? seen (slot :: rest) =
      some (if slot ∈ seen then .repeated slot else .unknown slot) := by
  simp only [suppliedFault?, List.contains_eq_mem, decide_eq_true_eq]
  by_cases hseen : slot ∈ seen
  · rw [if_pos hseen, if_pos hseen]
  · have hnot : (!construct.hasSlot slot) = true := by
      simpa [hasSlot] using h.resolve_left hseen
    rw [if_neg hseen, if_neg hseen, if_pos hnot]

/-- A fault is found at the first name that has one. -/
theorem exists_of_suppliedFault?_eq_some (h : construct.suppliedFault? seen names = some fault) :
    ∃ before slot after, names = before ++ slot :: after ∧
      construct.suppliedFault? seen before = none ∧
      (slot ∈ before.reverse ++ seen ∨ slot ∉ construct.slots) := by
  induction names generalizing seen with
  | nil => cases h
  | cons slot rest ih =>
      by_cases hfault : slot ∈ seen ∨ slot ∉ construct.slots
      case pos => exact ⟨[], slot, rest, rfl, rfl, hfault⟩
      obtain ⟨hseen, hslot⟩ := not_or.mp hfault
      have hhas : construct.hasSlot slot := hasSlot_iff.mpr (not_not.mp hslot)
      have hskip (others : List String) : construct.suppliedFault? seen (slot :: others) =
          construct.suppliedFault? (slot :: seen) others := by
        simp [suppliedFault?, hseen, hhas]
      rw [hskip] at h
      obtain ⟨before, other, after, rfl, hgood, hother⟩ := ih h
      refine ⟨slot :: before, other, after, rfl, (hskip before).trans hgood, ?_⟩
      simpa [List.reverse_cons, List.append_assoc] using hother

theorem missingFault?_eq_some_iff : construct.missingFault? names = some fault ↔
    ∃ before slot after, construct.slots = before ++ slot :: after ∧
      (∀ other ∈ before, other ∈ names) ∧ slot ∉ names ∧ fault = .missing slot := by
  simp only [missingFault?, Option.map_eq_some_iff, List.find?_eq_some_iff_append,
    List.contains_eq_mem, Bool.not_eq_true', decide_eq_false_iff_not, Bool.not_not,
    decide_eq_true_eq]
  constructor
  · rintro ⟨slot, ⟨hnot, before, after, horder, hsupplied⟩, rfl⟩
    exact ⟨before, slot, after, horder, hsupplied, hnot, rfl⟩
  · rintro ⟨before, slot, after, horder, hsupplied, hnot, rfl⟩
    exact ⟨slot, ⟨hnot, before, after, horder, hsupplied⟩, rfl⟩

theorem fault?_eq_some_iff : construct.fault? names = some fault ↔
    construct.FirstFault names fault := by
  rw [fault?, Option.or_eq_some_iff, suppliedFault?_nil_eq_none_iff, missingFault?_eq_some_iff]
  constructor
  · rintro (hsupplied | ⟨hgood, before, slot, after, horder, hothers, hnot, rfl⟩)
    · obtain ⟨before, slot, after, rfl, hnone, hfault⟩ := exists_of_suppliedFault?_eq_some hsupplied
      have hgood := suppliedFault?_nil_eq_none_iff.mp hnone
      rw [suppliedFault?_append, hnone, Option.none_or,
        suppliedFault?_cons_eq_some slot after hfault, Option.some_inj] at hsupplied
      simp only [List.append_nil, List.mem_reverse] at hfault hsupplied
      subst hsupplied
      by_cases hbefore : slot ∈ before
      · rw [if_pos hbefore]
        exact .repeated hgood hbefore after
      · rw [if_neg hbefore]
        exact .unknown hgood (hfault.resolve_left hbefore) after
    · exact .missing hgood horder hothers hnot
  · intro h
    cases h with
    | repeated good again after =>
        left
        rw [suppliedFault?_append, suppliedFault?_nil_eq_none_iff.mpr good, Option.none_or,
          suppliedFault?_cons_eq_some _ _ (.inl (by simpa using again)),
          if_pos (by simpa using again)]
    | unknown good stray after =>
        left
        have hbefore := fun hmem => stray (good.2 _ hmem)
        rw [suppliedFault?_append, suppliedFault?_nil_eq_none_iff.mpr good, Option.none_or,
          suppliedFault?_cons_eq_some _ _ (.inr stray), if_neg (by simpa using hbefore)]
    | missing good order supplied left_out =>
        exact .inr ⟨good, _, _, _, order, supplied, left_out, rfl⟩

/-- Names are without fault when they are the slots in some order. -/
theorem fault?_eq_none_iff : construct.fault? names = none ↔ names.Perm construct.slots := by
  have hmissing : construct.missingFault? names = none ↔
      ∀ slot ∈ construct.slots, slot ∈ names := by
    simp [missingFault?]
  rw [fault?, Option.or_eq_none_iff, suppliedFault?_nil_eq_none_iff, hmissing]
  constructor
  · rintro ⟨⟨hnodup, hslots⟩, hall⟩
    exact (List.perm_ext_iff_of_nodup hnodup construct.slots_nodup).mpr fun slot =>
      ⟨hslots slot, hall slot⟩
  · intro h
    exact ⟨⟨h.nodup_iff.mpr construct.slots_nodup, fun _ => h.mem_iff.mp⟩, fun _ => h.mem_iff.mpr⟩

end Construct

/-! ## Fields in slot order -/

/-- Every slot that is supplied gets its place. -/
theorem map_fst_arrange {slots : List String} (h : ∀ slot ∈ slots, slot ∈ fields.map (·.1)) :
    (arrange slots fields).map (·.1) = slots := by
  induction slots with
  | nil => rfl
  | cons slot rest ih =>
      obtain ⟨hslot, hrest⟩ := List.forall_mem_cons.mp h
      obtain ⟨value, hvalue⟩ : ∃ value, fields.lookup slot = some value := by
        rw [← Option.ne_none_iff_exists', ne_eq, List.lookup_eq_none_iff]
        intro hnone
        obtain ⟨field, hfield, rfl⟩ := List.mem_map.mp hslot
        simpa using hnone field hfield
      have htail := ih hrest
      simp only [arrange] at htail ⊢
      simp [hvalue, htail]

theorem mem_arrange_iff {slots : List String} {slot : String} {value : Value} :
    (slot, value) ∈ arrange slots fields ↔ slot ∈ slots ∧ fields.lookup slot = some value := by
  simp only [arrange, List.mem_filterMap, Option.map_eq_some_iff, Prod.mk.injEq]
  constructor
  · rintro ⟨_, hslot, _, hvalue, rfl, rfl⟩
    exact ⟨hslot, hvalue⟩
  · rintro ⟨hslot, hvalue⟩
    exact ⟨slot, hslot, value, hvalue, rfl, rfl⟩

/-- The order in which fields without repetitions are supplied is not seen afterwards. -/
theorem arrange_of_perm {slots : List String} {others : List (String × Value)}
    (hnodup : (fields.map (·.1)).Nodup) (h : others.Perm fields) :
    arrange slots others = arrange slots fields := by
  have hothers : (others.map (·.1)).Nodup := (h.map _).nodup_iff.mpr hnodup
  have hlookup (slot : String) : others.lookup slot = fields.lookup slot := by
    ext value
    rw [lookup_eq_some_iff_mem hothers, lookup_eq_some_iff_mem hnodup, h.mem_iff]
  simp only [arrange, hlookup]

/-! ## Acceptance -/

namespace Node

variable {n : Node}

theorem build_eq_ok_iff : build construct position fields = .ok n ↔
    (fields.map (·.1)).Perm construct.slots ∧
      n = .mk construct (arrange construct.slots fields) position := by
  rw [build, ← Construct.fault?_eq_none_iff]
  cases construct.fault? (fields.map (·.1)) with
  | none => simp [eq_comm]
  | some fault => simp

theorem build_eq_error_iff {e : Error} : build construct position fields = .error e ↔
    ∃ fault, construct.FirstFault (fields.map (·.1)) fault ∧
      e = .incompleteNode construct fault.text := by
  simp only [build, ← Construct.fault?_eq_some_iff]
  cases construct.fault? (fields.map (·.1)) with
  | none => simp
  | some fault => simp [SlotFault.error, eq_comm]

/-- A node can be built exactly from fields that name the slots of its construct in some order.
It has them in catalogue order, gives back under each slot what was supplied for it, is the same
for every order of the fields, and can be built again from its own. Other fields are refused for
the first fault of their names. -/
theorem build_iff_perm_slots (construct : Construct) (position : Position)
    (fields : List (String × Value)) :
    ((∃ n, build construct position fields = .ok n) ↔
      (fields.map (·.1)).Perm construct.slots) ∧
    (∀ n, build construct position fields = .ok n →
      n.construct = construct ∧ n.position = position ∧
      n.fields.map (·.1) = construct.slots ∧
      (∀ slot value, n.get? slot = some value ↔ (slot, value) ∈ fields) ∧
      (∀ others : List (String × Value), others.Perm fields →
        build construct position others = .ok n) ∧
      build construct position n.fields = .ok n) ∧
    ∀ e, build construct position fields = .error e ↔
      ∃ fault, construct.FirstFault (fields.map (·.1)) fault ∧
        e = .incompleteNode construct fault.text := by
  refine ⟨?_, fun n hbuild => ?_, fun e => build_eq_error_iff⟩
  · simp only [build_eq_ok_iff, exists_and_left, exists_eq, and_true]
  obtain ⟨hperm, rfl⟩ := build_eq_ok_iff.mp hbuild
  have hnodup : (fields.map (·.1)).Nodup := hperm.nodup_iff.mpr construct.slots_nodup
  have hnames : (arrange construct.slots fields).map (·.1) = construct.slots :=
    map_fst_arrange fun _ hslot => hperm.mem_iff.mpr hslot
  refine ⟨rfl, rfl, hnames, fun slot value => ?_, fun others hothers => ?_,
    build_of_slots hnames position⟩
  · have harranged : ((arrange construct.slots fields).map (·.1)).Nodup := by
      rw [hnames]
      exact construct.slots_nodup
    show (arrange construct.slots fields).lookup slot = some value ↔ _
    rw [lookup_eq_some_iff_mem harranged, mem_arrange_iff,
      lookup_eq_some_iff_mem hnodup]
    exact and_iff_right_of_imp fun hmem => hperm.mem_iff.mp (List.mem_map_of_mem hmem)
  · rw [build_eq_ok_iff, arrange_of_perm hnodup hothers]
    exact ⟨(hothers.map _).trans hperm, rfl⟩

/-- The fields of a binary operation, out of order. -/
def shuffledOperation : List (String × Value) :=
  [("right", .text "b"), ("left", .text "a"), ("op", .operator .plus)]

/-- Two fields with a stray name before a repeated one. -/
def strayOperation : List (String × Value) :=
  [("right", .text "b"), ("rigth", .text "c"), ("right", .text "d")]

theorem build_iff_perm_slots_binOp :
    (∃ n, build .binOp ⟨1, 1, 1, 4⟩ shuffledOperation = .ok n ∧
      n.fields.map (·.1) = ["left", "op", "right"] ∧
      (∀ value, n.get? "left" = some value ↔ ("left", value) ∈ shuffledOperation)) ∧
    build .binOp ⟨1, 1, 1, 4⟩ strayOperation =
      .error (.incompleteNode .binOp "unknown field `rigth`") := by
  obtain ⟨haccepted, hbuilt, -⟩ :=
    build_iff_perm_slots .binOp ⟨1, 1, 1, 4⟩ shuffledOperation
  obtain ⟨n, hn⟩ := haccepted.mpr (by decide)
  obtain ⟨-, -, hnames, hvalues, -⟩ := hbuilt n hn
  refine ⟨⟨n, hn, hnames, fun value => hvalues "left" value⟩, ?_⟩
  refine ((build_iff_perm_slots .binOp ⟨1, 1, 1, 4⟩ strayOperation).2.2 _).mpr
    ⟨.unknown "rigth", ?_, rfl⟩
  show Construct.FirstFault .binOp (["right"] ++ "rigth" :: ["right"]) _
  exact .unknown ⟨by decide, by decide⟩ (by decide) ["right"]

end Node

end TreeLowering
