/-
# Displays, comprehensions and calls

What the handlers of bracketed expressions do with the nodes of their parts. Their
elements are gathered through fragments of any depth, so the laws of the two recursions
that look through fragments come first.
-/

import TreeLowering.Lowering.Call
import TreeLowering.Lowering.Comprehension
import TreeLowering.Lowering.Display
import TreeLowering.Proofs.Reduction.Places
import TreeLowering.Proofs.Reduction.Rules

namespace TreeLowering.Lowering

open TreeLowering.Reduced

variable {r : Reduction} {items : List Reduced}

/-! ## Displays -/

theorem sequence_yields : Yields (sequence r items) (Reduces r items) := by
  rw [sequence]
  apply Yields.bind (gather_yields items)
  intro elements helements
  subst helements
  split
  · rw [r.build_of_slots rfl]
    exact .ok (.built (.display (.inl rfl)))
  · rw [Reduction.tuple, r.node_of_slots rfl]
    exact .ok (.built (.display (.inr rfl)))
  · rw [r.build_of_slots rfl]
    exact .ok (.built .set)
  · exact .error trivial

theorem entries_cons (item : Reduced) (rest : List Reduced) :
    entries (item :: rest) =
      entriesOf item >>= fun first => entries rest >>= fun others => .ok (first ++ others) := by
  rw [entries]
  cases entriesOf item with
  | error e => rfl
  | ok first => cases entries rest <;> rfl

mutual

theorem entriesOf_yields : ∀ item : Reduced,
    Yields (entriesOf item) fun found => item.roots = entryNodes found
  | .pair _ _ => .ok rfl
  | .unpack _ => .ok rfl
  | .fragment _ children _ => by
      rw [entriesOf, roots]
      exact entries_yields children
  | .token _ => .ok rfl
  | .absent => .ok rfl
  | .node _ => .error trivial
  | .nodes _ => .error trivial
  | .operator _ => .error trivial
  | .dotted _ => .error trivial
  | .level _ => .error trivial
  | .clause _ => .error trivial
  | .parameter _ => .error trivial

/-- The entries of parts have all their nodes, and keep their order. -/
theorem entries_yields : ∀ items : List Reduced,
    Yields (entries items) fun found => rootsOf items = entryNodes found
  | [] => .ok rfl
  | item :: rest => by
      have hfirst := entriesOf_yields item
      have hrest := entries_yields rest
      rw [entries, rootsOf]
      cases hf : entriesOf item with
      | error e => exact hfirst.of_error hf
      | ok first =>
          cases hr : entries rest with
          | error e => exact hrest.of_error hr
          | ok others =>
              rw [hfirst.of_ok hf, hrest.of_ok hr]
              exact .ok List.flatMap_append.symm

end

theorem dict_yields : Yields (dict r items) (Reduces r items) := by
  rw [dict]
  apply Yields.bind (entries_yields items)
  intro found hfound
  rw [r.build_of_slots rfl]
  exact .ok (.built (.dict hfound))

theorem keyValue_yields : Yields (keyValue r items) (Reduces r items) := by
  rw [keyValue_eq]
  apply Yields.bind (expectNode_yields _ _)
  intro key hkey
  apply Yields.bind (expectNode_yields _ _)
  intro value hvalue
  apply Yields.bind (noMore_yields _)
  intro _ hrest
  have hgiven := rootsOf_first hkey (rootsOf_drop hvalue (rootsOf_end hrest))
  exact .ok (.passed (.pair key value) hgiven.symm)

theorem dictUnpack_yields : Yields (dictUnpack r items) (Reduces r items) := by
  rw [dictUnpack_eq]
  apply Yields.bind (expectNode_yields _ _)
  intro mapping hmapping
  apply Yields.bind (noMore_yields _)
  intro _ hrest
  have hgiven := rootsOf_first hmapping (rootsOf_end hrest)
  exact .ok (.passed (.unpack mapping) hgiven.symm)

/-! ## Comprehensions -/

theorem comprehensionClause_yields (h : FollowSchema items) :
    Yields (comprehensionClause r items) (Reduces r items) := by
  rw [comprehensionClause_eq]
  apply Yields.bind (expectNode_yields _ _)
  intro target htarget
  apply Yields.bind ((h.part 0).bind_yields htarget)
  intro place hplace
  apply Yields.bind (expectNode_yields _ _)
  intro iterable hiterable
  apply Yields.bind (optionalNode_yields _ _)
  intro condition hcondition
  apply Yields.bind (noMore_yields _)
  intro _ hrest
  split
  case isTrue => exact .error trivial
  case isFalse hplain =>
    have hgiven := rootsOf_first htarget
      (rootsOf_drop hiterable (rootsOf_drop hcondition (rootsOf_end hrest)))
    have hnone : ∀ n ∈ condition.toList, n.construct ≠ .comprehension := by
      intro n hn
      cases condition with
      | none => cases hn
      | some c =>
          rw [Option.toList_some, List.mem_singleton] at hn
          subst hn
          simpa [isComprehension] using hplain
    rw [r.build_of_slots rfl]
    refine .ok (.built (.comprehension ?_ hplace hnone ?_))
    · simpa using hgiven
    · split
      · exact .inr rfl
      · exact .inl rfl

theorem clauses_yields (items : List Reduced) :
    Yields (clauses items) fun generators =>
      rootsOf items = generators ∧ SomeOf .comprehension generators := by
  rw [clauses]
  apply Yields.bind (gather_yields items)
  intro nodes hnodes
  exact (allOf_yields _ .comprehension nodes).mono fun kept hkept =>
    ⟨hnodes.trans hkept.1.symm, hkept.1 ▸ hkept.2⟩

theorem kind_of_comprehensionConstruct? {rule : Rule} {construct : Construct}
    (h : comprehensionConstruct? rule = some construct) :
    construct = .listComp ∨ construct = .setComp ∨ construct = .generatorExp := by
  rw [comprehensionConstruct?.eq_def] at h
  split at h <;> cases h <;> simp

theorem build_comprehension {rule : Rule} {construct : Construct}
    (h : comprehensionConstruct? rule = some construct) (element : Node)
    (generators : List Node) :
    r.build construct [("elt", .node element), ("generators", .list generators)] =
      .ok (.node (.mk construct [("elt", .node element), ("generators", .list generators)]
        r.position)) :=
  r.build_of_slots (by rcases kind_of_comprehensionConstruct? h with rfl | rfl | rfl <;> rfl)

theorem comprehension_yields : Yields (comprehension r items) (Reduces r items) := by
  rw [comprehension_eq]
  split
  · rename_i construct hconstruct
    have hkind := kind_of_comprehensionConstruct? hconstruct
    apply Yields.bind (expectNode_yields _ _)
    intro element helement
    apply Yields.bind (clauses_yields _)
    intro generators hgenerators
    rw [build_comprehension hconstruct]
    exact .ok (.built (.elementComprehension hkind (rootsOf_first helement hgenerators.1)
      hgenerators.2))
  · exact .error trivial

/-- Of the parts of a dict comprehension, the entry has been taken already. -/
theorem dictComprehensionOf_yields {key value : Node} {clausal : List Reduced}
    (hgiven : rootsOf items = [key, value] ++ rootsOf clausal) :
    Yields (dictComprehensionOf r key value clausal) (Reduces r items) := by
  rw [dictComprehensionOf]
  apply Yields.bind (clauses_yields _)
  intro generators hgenerators
  rw [r.build_of_slots rfl]
  exact .ok (.built (.dictComp (hgenerators.1 ▸ hgiven) hgenerators.2))

theorem dictComprehension_yields : Yields (dictComprehension r items) (Reduces r items) := by
  rw [dictComprehension_eq]
  split
  · rename_i hhead
    exact dictComprehensionOf_yields (rootsOf_first (rootsOf_of_head? hhead) rfl)
  · rename_i key hhead
    apply Yields.bind (expectNode_yields _ _)
    intro value hvalue
    have hfirst : rootsOf items[0]?.toList = [key] := rootsOf_of_head? hhead
    have hgiven := rootsOf_first hfirst (rootsOf_drop hvalue rfl)
    exact dictComprehensionOf_yields hgiven
  · exact .error trivial

/-! ## Calls -/

theorem classifyArguments_yields (items : List Reduced) :
    Yields (classifyArguments items) fun found =>
      found = ((rootsOf items).filter fun n => !isKeyword n, (rootsOf items).filter isKeyword) := by
  rw [classifyArguments]
  apply Yields.bind (gather_yields items)
  intro nodes hnodes
  subst hnodes
  exact .ok rfl

/-- A call takes all nodes of the parts behind the callee. -/
theorem callOf_yields (func : Node) (items : List Reduced) :
    Yields (callOf r func items) fun result => result =
      .node (.mk .call [("func", .node func),
        ("args", .list ((rootsOf items).filter fun n => !isKeyword n)),
        ("keywords", .list ((rootsOf items).filter isKeyword))] r.position) := by
  rw [callOf]
  apply Yields.bind (classifyArguments_yields items)
  intro found hfound
  subst hfound
  dsimp only
  rw [r.build_of_slots rfl]
  exact .ok rfl

theorem call_yields : Yields (call r items) (Reduces r items) := by
  rw [call_eq]
  apply Yields.bind (expectNode_yields _ _)
  intro func hfunc
  apply (callOf_yields func _).mono
  intro result hresult
  subst hresult
  exact .built (.call (rootsOf_first hfunc rfl))

theorem keywordArgument_yields : Yields (keywordArgument r items) (Reduces r items) := by
  rw [keywordArgument_eq]
  apply Yields.bind (identifier_yields _ _)
  intro arg harg
  apply Yields.bind (expectNode_yields _ _)
  intro value hvalue
  apply Yields.bind (noMore_yields _)
  intro _ hrest
  have hgiven := rootsOf_first rfl (rootsOf_drop hvalue (rootsOf_end hrest))
  rw [r.build_of_slots rfl]
  exact .ok (.built (.keyword (some arg) harg hgiven))

theorem mappingArgument_yields : Yields (mappingArgument r items) (Reduces r items) := by
  rw [mappingArgument_eq]
  apply Yields.bind (expectNode_yields _ _)
  intro value hvalue
  apply Yields.bind (noMore_yields _)
  intro _ hrest
  have hgiven := rootsOf_first hvalue (rootsOf_end hrest)
  rw [r.build_of_slots rfl]
  exact .ok (.built (.keyword none names_nil hgiven))

theorem nodeList_yields : Yields (nodeList r items) (Reduces r items) := by
  rw [nodeList]
  exact (gather_yields items).map fun nodes hnodes => .passed (.nodes nodes) hnodes.symm

end TreeLowering.Lowering
