/-
# Groups in parameter lists

Pieces of a parameter list are scanned through groups, and yet a group behind a double star
is refused whatever is in it, even a separator that is let pass alone. Up to such groups
the answer to a list does not depend on how it is grouped.
-/

import TreeLowering.Proofs.ParameterLists
import TreeLowering.Proofs.Regrouping

namespace TreeLowering

open TreeLowering.Lowering TreeLowering.Parameter TreeLowering.Reduced

/-! ## Groups behind a double star -/

namespace Reduced

variable {run run' before after : List Reduced} {name : String} {position : Position}

/-- A double star stands in a run, or in a fragment of it. -/
def HasMapping (run : List Reduced) : Prop :=
  ∃ n, .parameter (.mapping n) ∈ flatten run

/-- A fragment stands behind a double star, in a run or in a fragment of it. -/
inductive GroupedLate : List Reduced → Prop
  | behind {before run after : List Reduced} {name : String} {position : Position}
      (found : HasMapping before) : GroupedLate (before ++ .fragment name run position :: after)
  | inside {before run after : List Reduced} {name : String} {position : Position}
      (late : GroupedLate run) : GroupedLate (before ++ .fragment name run position :: after)

@[simp]
theorem hasMapping_nil : ¬ HasMapping [] := by
  rintro ⟨n, hn⟩
  cases hn

theorem hasMapping_cons (item : Reduced) (run : List Reduced) :
    HasMapping (item :: run) ↔ HasMapping [item] ∨ HasMapping run := by
  simp [HasMapping, flatten, exists_or]

theorem flatten_append : flatten (before ++ after) = flatten before ++ flatten after := by
  induction before with
  | nil => rfl
  | cons item rest ih => rw [List.cons_append, flatten, flatten, ih, List.append_assoc]

theorem hasMapping_append : HasMapping (before ++ after) ↔ HasMapping before ∨ HasMapping after := by
  simp [HasMapping, flatten_append, exists_or]

@[simp]
theorem hasMapping_fragment : HasMapping [.fragment name run position] ↔ HasMapping run := by
  simp [HasMapping, flatten, flat]

theorem GroupedLate.hasMapping (h : GroupedLate run) : HasMapping run := by
  induction h with
  | behind found => exact hasMapping_append.mpr (.inl found)
  | inside _ ih =>
      rw [hasMapping_append, hasMapping_cons, hasMapping_fragment]
      exact .inr (.inl ih)

theorem GroupedLate.exists_fragment (h : GroupedLate run) :
    ∃ name children position, .fragment name children position ∈ run := by
  cases h <;> exact ⟨_, _, _, List.mem_append_right _ List.mem_cons_self⟩

theorem flatten_of_regroup (hstep : Regroup False run run') : flatten run = flatten run' := by
  induction hstep with
  | wrap run name position => simp [flatten, flat]
  | @insert item filler => cases item <;> first | rfl | cases filler
  | join allowed => exact allowed.elim
  | inside name position _ ih => simp [flatten, flat, ih]
  | beside before after _ ih => simp only [flatten_append, ih]

/-- Runs that are the same but for their grouping flatten to the same run. -/
theorem flatten_of_regrouped (hruns : Regrouped False run run') : flatten run = flatten run' := by
  induction hruns with
  | rel _ _ step => exact flatten_of_regroup step
  | refl => rfl
  | symm _ _ _ ih => exact ih.symm
  | trans _ _ _ _ _ first second => exact first.trans second

end Reduced

namespace Lowering.Signature

variable {s next : Signature} {pieces run : List Reduced} {name : String} {position : Position}

/-! ## The double star of a signature -/

theorem mapping?_of_addPlain {n : Node} {default? : Option Node}
    (h : s.addPlain n default? = .ok next) : next.mapping? = s.mapping? := by
  obtain ⟨-, ⟨-, rfl⟩ | ⟨-, -, rfl⟩⟩ := addPlain_eq_ok_iff.mp h <;> rfl

theorem mapping?_of_addAll {nodes : List Node} (h : s.addAll nodes = .ok next) :
    next.mapping? = s.mapping? := by
  induction nodes generalizing s with
  | nil => cases h; rfl
  | cons n rest ih =>
      rw [addAll, List.foldlM_cons] at h
      obtain ⟨step, hstep, hrest⟩ := exists_of_bind_eq_ok h
      rw [ih hrest, mapping?_of_addPlain hstep]

mutual

theorem isSome_mapping?_of_add : ∀ {piece : Reduced} {s next : Signature},
    s.add piece = .ok next →
      (next.mapping?.isSome ↔ s.mapping?.isSome ∨ HasMapping [piece])
  | .token _, s, next, h | .absent, s, next, h => by
      obtain rfl : s = next := by simpa [add] using h
      simp [HasMapping, flatten, flat]
  | .fragment _ run _, s, next, h => by
      obtain ⟨-, hrun⟩ := add_fragment_eq_ok_iff.mp h
      rw [isSome_mapping?_of_addPieces hrun, hasMapping_fragment]
  | .node n, s, next, h => by
      obtain ⟨-, hplain⟩ := add_plain_eq_ok_iff.mp (add_node_eq_ok_iff.mp h)
      simp [mapping?_of_addPlain hplain, HasMapping, flatten, flat]
  | .nodes ns, s, next, h => by
      obtain ⟨-, hall⟩ := add_nodes_eq_ok_iff.mp h
      simp [mapping?_of_addAll hall, HasMapping, flatten, flat]
  | .parameter (.plain n default?), s, next, h => by
      obtain ⟨-, hplain⟩ := add_plain_eq_ok_iff.mp h
      simp [mapping?_of_addPlain hplain, HasMapping, flatten, flat]
  | .parameter (.star parameter?), s, next, h => by
      obtain ⟨-, -, -, rfl⟩ := add_star_eq_ok_iff.mp h
      simp [HasMapping, flatten, flat]
  | .parameter (.mapping n), s, next, h => by
      obtain ⟨-, -, rfl⟩ := add_mapping_eq_ok_iff.mp h
      simp [HasMapping, flatten, flat]
  | .parameter .slash, s, next, h => by
      obtain ⟨-, -, -, -, rfl⟩ := add_slash_eq_ok_iff.mp h
      simp [HasMapping, flatten, flat]
  | .operator _, s, next, h | .pair _ _, s, next, h | .unpack _, s, next, h
  | .dotted _, s, next, h | .level _, s, next, h | .clause _, s, next, h => by
      cases hmapping : s.mapping? <;> simp [add, hmapping] at h

/-- A signature has a double star exactly when one was among its pieces. -/
theorem isSome_mapping?_of_addPieces : ∀ {pieces : List Reduced} {s next : Signature},
    s.addPieces pieces = .ok next →
      (next.mapping?.isSome ↔ s.mapping?.isSome ∨ HasMapping pieces)
  | [], _, _, rfl => by simp
  | piece :: rest, s, next, h => by
      rw [addPieces_cons] at h
      obtain ⟨step, hstep, hrest⟩ := exists_of_bind_eq_ok h
      rw [isSome_mapping?_of_addPieces hrest, isSome_mapping?_of_add hstep,
        hasMapping_cons piece rest, or_assoc]

end

/-! ## Ungrouping -/

mutual

theorem add_flat : ∀ (piece : Reduced) {s : Signature} {before after : List Reduced},
    (s.mapping?.isSome → HasMapping before) → ¬ GroupedLate (before ++ piece :: after) →
      s.add piece = s.addPieces piece.flat
  | .fragment name run position, s, before, after, hseen, hlate => by
      have hopen : s.mapping? = none := by
        by_contra hsome
        exact hlate (.behind (hseen (Option.isSome_iff_ne_none.mpr hsome)))
      rw [add_fragment hopen, flat]
      refine addPieces_flatten run [] (fun hsome => ?_) fun late => hlate (.inside late)
      simp [hopen] at hsome
  | .token _, _, _, _, _, _ | .absent, _, _, _, _, _ => rfl
  | .node _, s, _, _, _, _ | .nodes _, s, _, _, _, _ | .operator _, s, _, _, _, _
  | .pair _ _, s, _, _, _, _ | .unpack _, s, _, _, _, _ | .dotted _, s, _, _, _, _
  | .level _, s, _, _, _, _ | .clause _, s, _, _, _, _ | .parameter _, s, _, _, _, _ => by
      rw [flat.eq_def, addPieces_singleton]

/-- Without a group behind a double star, pieces are placed like those of the flattened list.
What has been placed before must have the double star of the signature, if it has one. -/
theorem addPieces_flatten : ∀ (pieces : List Reduced) {s : Signature} (before : List Reduced),
    (s.mapping?.isSome → HasMapping before) → ¬ GroupedLate (before ++ pieces) →
      s.addPieces pieces = s.addPieces (flatten pieces)
  | [], _, _, _, _ => rfl
  | piece :: rest, s, before, hseen, hlate => by
      rw [addPieces_cons, flatten, addPieces_append, ← add_flat piece hseen hlate]
      cases hstep : s.add piece with
      | error e => rfl
      | ok next =>
          refine addPieces_flatten rest (before ++ [piece]) (fun hsome => ?_) (by simpa using hlate)
          rw [hasMapping_append]
          exact ((isSome_mapping?_of_add hstep).mp hsome).imp_left hseen

end

/-- Where a fragment is accepted, no double star stands before it. -/
theorem exists_of_addPieces_fragment {before after : List Reduced}
    (h : s.addPieces (before ++ .fragment name run position :: after) = .ok next) :
    ∃ first grouped, s.addPieces before = .ok first ∧ first.mapping? = none ∧
      first.addPieces run = .ok grouped := by
  rw [addPieces_append] at h
  obtain ⟨first, hbefore, hbehind⟩ := exists_of_bind_eq_ok h
  rw [addPieces_cons] at hbehind
  obtain ⟨grouped, hgrouped, -⟩ := exists_of_bind_eq_ok hbehind
  exact ⟨first, grouped, hbefore, add_fragment_eq_ok_iff.mp hgrouped⟩

/-- A group behind a double star is refused. -/
theorem addPieces_of_groupedLate (h : GroupedLate pieces) : s.addPieces pieces ≠ .ok next := by
  induction h generalizing s next with
  | behind found =>
      intro hok
      obtain ⟨_, _, hbefore, hnone, -⟩ := exists_of_addPieces_fragment hok
      have hsome := (isSome_mapping?_of_addPieces hbefore).mpr (.inr found)
      rw [hnone] at hsome
      cases hsome
  | inside late ih =>
      intro hok
      obtain ⟨_, _, -, -, hrun⟩ := exists_of_addPieces_fragment hok
      exact ih hrun

end Lowering.Signature

/-! ## Grouped lists -/

variable {options : Options} {position : Position} {pieces pieces' : List Reduced}

theorem apply_flatten (h : ¬ GroupedLate pieces) :
    apply options .parameterList position pieces =
      apply options .parameterList position (flatten pieces) := by
  have hsame : Signature.ofPieces pieces = Signature.ofPieces (flatten pieces) :=
    Signature.addPieces_flatten pieces [] (fun hsome => absurd hsome Bool.false_ne_true) h
  simp only [apply, handlerOf, parameterList, hsame]

theorem apply_of_groupedLate (h : GroupedLate pieces) :
    (apply options .parameterList position pieces).toOption = none := by
  cases hsignature : Signature.ofPieces pieces with
  | ok s => exact absurd hsignature (Signature.addPieces_of_groupedLate h)
  | error e =>
      simp only [apply, handlerOf, parameterList, hsignature]
      rfl

/-- However the pieces of a parameter list are grouped, the answer is the same, unless a group
stands behind a double star: then the list is refused. So grouping matters exactly for the
lists that are accepted without groups, where one of two groupings has such a group and the
other has none. -/
theorem apply_parameterList_of_regrouped (options : Options) (position : Position)
    {pieces pieces' : List Reduced} (hruns : Regrouped False pieces pieces') :
    (¬ GroupedLate pieces → ¬ GroupedLate pieces' →
      apply options .parameterList position pieces =
        apply options .parameterList position pieces') ∧
    (GroupedLate pieces' → (apply options .parameterList position pieces').toOption = none) ∧
    ((apply options .parameterList position pieces).toOption =
        (apply options .parameterList position pieces').toOption ↔
      (GroupedLate pieces ↔ GroupedLate pieces') ∨
        (apply options .parameterList position (flatten pieces)).toOption = none) := by
  have hflat := flatten_of_regrouped hruns
  have hsame (h : ¬ GroupedLate pieces) (h' : ¬ GroupedLate pieces') :
      apply options .parameterList position pieces =
        apply options .parameterList position pieces' := by
    rw [apply_flatten h, apply_flatten h', hflat]
  refine ⟨hsame, apply_of_groupedLate, ?_⟩
  by_cases h : GroupedLate pieces <;> by_cases h' : GroupedLate pieces'
  · simp [h, h', apply_of_groupedLate]
  · simp [h, h', apply_of_groupedLate, apply_flatten h', hflat, eq_comm]
  · simp [h, h', apply_of_groupedLate, apply_flatten h]
  · simp [h, h', hsame]

/-- The separator of parameters. -/
def comma : Reduced :=
  .token ⟨"COMMA", ",", .unknown⟩

/-- The parameters `**kw,` with the comma alone. -/
def trailingComma : List Reduced :=
  [.parameter (.mapping (plainName "kw")), comma]

/-- The parameters `**kw,` with the comma in a group. -/
def groupedComma : List Reduced :=
  [.parameter (.mapping (plainName "kw")), .fragment "trailing_comma" [comma] .unknown]

theorem regroup_trailingComma : Regroup False trailingComma groupedComma :=
  .beside [.parameter (.mapping (plainName "kw"))] [] (.wrap [comma] "trailing_comma" .unknown)

/-- A group of `a,` before `b` makes no difference, one of the comma behind `**kw` does. -/
theorem apply_parameterList_of_regrouped_comma :
    apply .default .parameterList .unknown
        [.node (plainName "a"), comma, .node (plainName "b")] =
      apply .default .parameterList .unknown
        [.fragment "leading" [.node (plainName "a"), comma] .unknown, .node (plainName "b")] ∧
    (apply .default .parameterList .unknown trailingComma).toOption ≠
      (apply .default .parameterList .unknown groupedComma).toOption := by
  constructor
  · have hruns : Regroup False [.node (plainName "a"), comma, .node (plainName "b")]
        [.fragment "leading" [.node (plainName "a"), comma] .unknown, .node (plainName "b")] :=
      .beside [] [.node (plainName "b")] (.wrap [.node (plainName "a"), comma] "leading" .unknown)
    refine (apply_parameterList_of_regrouped .default .unknown (.rel _ _ hruns)).1 ?_ ?_ <;>
      exact fun late => by simpa [HasMapping, flatten, flat, comma] using late.hasMapping
  · obtain ⟨-, -, hiff⟩ := apply_parameterList_of_regrouped .default .unknown
      (.rel _ _ regroup_trailingComma)
    have hfound : HasMapping [.parameter (.mapping (plainName "kw"))] :=
      ⟨plainName "kw", List.mem_cons_self⟩
    have hlate : GroupedLate groupedComma := .behind hfound
    have hplain : ¬ GroupedLate trailingComma := fun late => by
      simpa [trailingComma, comma] using late.exists_fragment
    rw [ne_eq, hiff]
    rintro (hboth | hnone)
    · exact hplain (hboth.mpr hlate)
    · cases hnone

/-- The comma alone is passed over behind `**kw`, but refused in a group. -/
theorem grouped_comma_refused :
    Regroup False trailingComma groupedComma ∧
      (∃ n, apply .default .parameterList .unknown trailingComma = .ok (.node n)) ∧
      apply .default .parameterList .unknown groupedComma = .error (.inRule "parameters" .unknown
        (.shape "nothing after `**` parameter" "`trailing_comma` fragment")) := by
  have hpieces : ∀ piece ∈ trailingComma, piece.isPiece := by simp [trailingComma, comma, isPiece]
  have horder : Orderly (parametersOf trailingComma) :=
    show Orderly { Layout.empty with mapping? := some (plainName "kw") }.parameters from
      Layout.orderly_parameters (by decide) fun hstar => by cases hstar
  exact ⟨regroup_trailingComma, ⟨_, (apply_parameterList_iff hpieces).mpr ⟨horder, rfl⟩⟩, rfl⟩

end TreeLowering
