/-
# Like simple statements

The handlers of simple statements and of imports answer like parts alike. An import
statement is read part by part, and what it has said so far is like in both runs.
-/

import TreeLowering.Lowering.Import
import TreeLowering.Lowering.Statement
import TreeLowering.Proofs.Reduction.Places
import TreeLowering.Proofs.TwoRuns.Parts

namespace TreeLowering.Likeness

open TreeLowering.Lowering TreeLowering.Reduced

variable {L : Likeness} {raw classes : Prop} {r s : Reduction}
variable {items others : List Reduced} {item other : Reduced} {place place' : Option Reduced}

/-! ## Simple statements -/

theorem assignmentTarget_like (h : L.Events r s) (hitem : L.Parts raw classes item other) :
    L.Outcomes L.Nodes (assignmentTarget r item) (assignmentTarget s other) := by
  rw [assignmentTarget, assignmentTarget]
  apply (expression_like h _ (.some hitem)).bind
  intro _ _ htarget
  exact bind_like .write htarget

theorem expectBinary_like (what : String) (h : Option.Rel (L.Parts raw classes) place place') :
    L.Outcomes Eq (expectBinary what place) (expectBinary what place') := by
  cases h with
  | none => exact .error (.same _)
  | some like =>
      have hother := unexpected_like what (.some like)
      cases like with
      | operator op =>
          rw [expectBinary]
          split
          · exact .ok rfl
          · exact .error (.same _)
      | _ => exact .error hother

theorem identifiers_like (what : String) (hparts : L.PartLists raw classes items others) :
    L.Outcomes Eq (items.mapM fun item => identifier what (some item))
      (others.mapM fun item => identifier what (some item)) :=
  Outcomes.mapM_eq (fun _ _ like => identifier_like what (.some like)) hparts

theorem returnedValue_like (h : L.Events r s)
    (hplace : Option.Rel (L.Parts raw classes) place place') :
    L.Outcomes (Option.Rel L.Nodes) (returnedValue r place) (returnedValue s place') := by
  have hvalue : L.Outcomes (Option.Rel L.Nodes) ((r.expression "returned value" place).map some)
      ((s.expression "returned value" place').map some) :=
    (expression_like h _ hplace).map fun _ _ => .some
  cases hplace with
  | none => exact .ok .none
  | some like =>
      cases like with
      | absent => exact .ok .none
      | _ => exact hvalue

section

variable (h : L.Events r s) (hparts : L.PartLists raw classes items others)

include h hparts

theorem expressionStatement_like :
    L.Outcomes L.Answers (expressionStatement r items)
      (expressionStatement s others) := by
  rw [expressionStatement_eq, expressionStatement_eq]
  apply (expression_like h _ (rel_getElem? hparts 0)).bind
  intro _ _ hvalue
  exact build_at_end_like h nofun (List.forall₂_drop 1 hparts) (.cons _ (.node hvalue) .nil)

theorem assignment_like :
    L.Outcomes L.Answers (assignment r items) (assignment s others) := by
  have htargets := forall₂_dropLast hparts
  rw [assignment_eq, assignment_eq, isEmpty_eq htargets]
  apply (expression_like h _ (rel_getLast? hparts)).bind
  intro _ _ hvalue
  split
  · exact .error (.same _)
  · apply (Outcomes.mapM (fun _ _ like => assignmentTarget_like h like) htargets).bind
    intro _ _ hbound
    exact reduction_build_like h nofun (.cons _ (.list hbound) (.cons _ (.node hvalue) .nil))

theorem augmentedAssignment_like :
    L.Outcomes L.Answers (augmentedAssignment r items)
      (augmentedAssignment s others) := by
  rw [augmentedAssignment_eq, augmentedAssignment_eq]
  apply (expectNode_like _ (rel_getElem? hparts 0)).bind
  intro _ _ hbinding
  apply (bind_like .write hbinding).bind
  intro _ _ htarget
  apply (expectBinary_like _ (rel_getElem? hparts 1)).bind
  rintro op _ rfl
  apply (expression_like h _ (rel_getElem? hparts 2)).bind
  intro _ _ hvalue
  exact build_at_end_like h nofun (List.forall₂_drop 3 hparts)
    (.cons _ (.node htarget) (.cons _ (.scalar _) (.cons _ (.node hvalue) .nil)))

theorem annotatedAssignment_like :
    L.Outcomes L.Answers (annotatedAssignment r items)
      (annotatedAssignment s others) := by
  rw [annotatedAssignment_eq, annotatedAssignment_eq]
  apply (expectNode_like _ (rel_getElem? hparts 0)).bind
  intro _ _ hbinding
  apply (bind_like .write hbinding).bind
  intro n m htarget
  apply (expectNode_like _ (rel_getElem? hparts 1)).bind
  intro _ _ hannotation
  apply (optionalNode_like _ (rel_getElem? hparts 2)).bind
  intro _ _ hvalue
  rw [htarget.construct_eq]
  exact build_at_end_like h nofun (List.forall₂_drop 3 hparts) (.cons _ (.node htarget)
    (.cons _ (.node hannotation) (.cons _ (.ofOption hvalue) (.cons _ (.scalar _) .nil))))

theorem returnOrYield_like :
    L.Outcomes L.Answers (returnOrYield r items) (returnOrYield s others) := by
  rw [returnOrYield_eq, returnOrYield_eq, h.rule]
  apply (returnedValue_like h (rel_getElem? hparts 0)).bind
  intro _ _ hvalue
  refine build_at_end_like h ?_ (List.forall₂_drop 1 hparts) (.cons _ (.ofOption hvalue) .nil)
  split <;> nofun

theorem yieldFrom_like :
    L.Outcomes L.Answers (yieldFrom r items) (yieldFrom s others) := by
  rw [yieldFrom_eq, yieldFrom_eq]
  apply (expectNode_like _ (rel_getElem? hparts 0)).bind
  intro _ _ hvalue
  exact build_at_end_like h nofun (List.forall₂_drop 1 hparts) (.cons _ (.node hvalue) .nil)

theorem raise_like : L.Outcomes L.Answers (raise r items) (raise s others) := by
  rw [raise_eq, raise_eq]
  apply (optionalNode_like _ (rel_getElem? hparts 0)).bind
  intro _ _ hexc
  apply (optionalNode_like _ (rel_getElem? hparts 1)).bind
  intro _ _ hcause
  apply (noMore_like (List.forall₂_drop 2 hparts)).bind
  intro _ _ _
  rw [isNone_eq hexc, isSome_eq hcause]
  split
  · exact .error (.same _)
  · exact reduction_build_like h nofun
      (.cons _ (.ofOption hexc) (.cons _ (.ofOption hcause) .nil))

theorem assertion_like :
    L.Outcomes L.Answers (assertion r items) (assertion s others) := by
  rw [assertion_eq, assertion_eq]
  apply (expectNode_like _ (rel_getElem? hparts 0)).bind
  intro _ _ htest
  apply (optionalNode_like _ (rel_getElem? hparts 1)).bind
  intro _ _ hmsg
  exact build_at_end_like h nofun (List.forall₂_drop 2 hparts)
    (.cons _ (.node htest) (.cons _ (.ofOption hmsg) .nil))

theorem deletion_like :
    L.Outcomes L.Answers (deletion r items) (deletion s others) := by
  rw [deletion, deletion]
  apply (gather_like items hparts).bind
  intro _ _ hnodes
  rw [isEmpty_eq hnodes]
  split
  · exact .error (.same _)
  · apply (Outcomes.mapM (fun _ _ like => bind_like .delete like) hnodes).bind
    intro _ _ htargets
    exact reduction_build_like h nofun (.cons _ (.list htargets) .nil)

theorem keywordStatement_like :
    L.Outcomes L.Answers (keywordStatement r items) (keywordStatement s others) := by
  rw [keywordStatement.eq_def, keywordStatement.eq_def, h.rule]
  split
  · rename_i construct hconstruct
    have kind : construct ≠ .constant := by
      rintro rfl
      cases hrule : r.rule <;> rw [hrule] at hconstruct <;> cases hconstruct
    apply (onlyTokens_like _ hparts).bind
    intro _ _ _
    exact reduction_build_like h kind .nil
  · exact .error (.same _)

theorem scopeDeclaration_like :
    L.Outcomes L.Answers (scopeDeclaration r items) (scopeDeclaration s others) := by
  rw [scopeDeclaration, scopeDeclaration, h.rule]
  apply (identifiers_like _ hparts).bind
  rintro names _ rfl
  split
  · exact .error (.same _)
  · refine reduction_build_like h ?_ (.cons _ (.scalar _) .nil)
    split <;> nofun

end

/-! ## Imports -/

theorem importedName_like (h : Option.Rel (L.Parts raw classes) place place') :
    L.Outcomes Eq (importedName place) (importedName place') := by
  have hname := identifier_like "imported name" h
  cases h with
  | none => exact hname
  | some like =>
      cases like with
      | dotted path => exact .ok rfl
      | _ => exact hname

theorem isDots_eq {t u : Token} (text : t.text = u.text) : isDots t = isDots u := by
  rw [isDots, isDots, text]

theorem dotCount_eq {t u : Token} (text : t.text = u.text) : dotCount t = dotCount u := by
  rw [dotCount, dotCount, text]

theorem dotsOf_like (h : L.Parts raw classes item other) :
    L.Outcomes Eq (dotsOf item) (dotsOf other) := by
  have hother := unexpected_like "relative import dots" (.some h)
  cases h with
  | token text =>
      rw [dotsOf, dotsOf, isDots_eq text]
      split
      · exact .ok (dotCount_eq text)
      · exact .error hother
  | _ => exact .error hother

theorem dottedName_like (hparts : L.PartLists raw classes items others) :
    L.Outcomes L.Answers (dottedName r items) (dottedName s others) := by
  rw [dottedName, dottedName]
  apply (identifiers_like _ hparts).bind
  rintro names _ rfl
  dsimp only
  split
  · exact .error (.same _)
  · exact .ok (.dotted _)

theorem relativeLevel_like (hparts : L.PartLists raw classes items others) :
    L.Outcomes L.Answers (relativeLevel r items) (relativeLevel s others) := by
  have hdots : L.Outcomes Eq (items.mapM dotsOf) (others.mapM dotsOf) :=
    Outcomes.mapM_eq (fun _ _ like => dotsOf_like like) hparts
  rw [relativeLevel, relativeLevel]
  apply hdots.bind
  rintro dots _ rfl
  exact .ok (.level _)

section

variable (h : L.Events r s) (hparts : L.PartLists raw classes items others)

include h hparts

theorem importAlias_like :
    L.Outcomes L.Answers (importAlias r items) (importAlias s others) := by
  rw [importAlias_eq, importAlias_eq]
  apply (importedName_like (rel_getElem? hparts 0)).bind
  rintro name _ rfl
  apply (optionalIdentifier_like _ (rel_getElem? hparts 1)).bind
  rintro asname _ rfl
  exact build_at_end_like h nofun (List.forall₂_drop 2 hparts)
    (.cons _ (.scalar _) (.cons _ (.ofText? asname) .nil))

theorem importStar_like :
    L.Outcomes L.Answers (importStar r items) (importStar s others) := by
  rw [importStar, importStar]
  apply (onlyTokens_like _ hparts).bind
  intro _ _ _
  exact reduction_build_like h nofun (.cons _ (.scalar _) (.cons _ (.scalar _) .nil))

theorem importModules_like :
    L.Outcomes L.Answers (importModules r items) (importModules s others) := by
  rw [importModules, importModules]
  apply (gather_like items hparts).bind
  intro _ _ hnodes
  apply (allOf_like _ _ hnodes).bind
  intro _ _ hnames
  exact reduction_build_like h nofun (.cons _ (.list hnames) .nil)

end

/-- The same dots and module so far, and like names. -/
def Sources (L : Likeness) (a b : ImportSource) : Prop :=
  a.level = b.level ∧ a.module? = b.module? ∧ L.NodeLists a.names b.names

theorem isOpen_eq {a b : ImportSource} (h : L.Sources a b) : a.isOpen = b.isOpen := by
  rw [ImportSource.isOpen, ImportSource.isOpen, h.2.1, isEmpty_eq h.2.2]

/-- The next part is taken alike by import statements that said like things so far. -/
theorem importSource_add_like {a b : ImportSource} (h : L.Sources a b)
    (hitem : L.Parts raw classes item other) : L.Outcomes L.Sources (a.add item) (b.add other) := by
  have hother := unexpected_like "import clause" (.some hitem)
  have hopen := isOpen_eq h
  have hgather : L.Outcomes L.Sources
      (gatherItem item >>= fun found => .ok { a with names := a.names ++ found })
      (gatherItem other >>= fun found => .ok { b with names := b.names ++ found }) := by
    apply (gatherItem_like item hitem).bind
    intro _ _ hfound
    exact .ok ⟨h.1, h.2.1, List.rel_append h.2.2 hfound⟩
  cases hitem with
  | absent => exact .ok h
  | node => exact hgather
  | nodes => exact hgather
  | fragment => exact hgather
  | level dots =>
      rw [ImportSource.add, ImportSource.add, hopen, h.1]
      split
      · exact .ok ⟨rfl, h.2⟩
      · exact .error (.same _)
  | token text =>
      rw [ImportSource.add, ImportSource.add, hopen, isDots_eq text]
      split
      · split
        · exact .ok ⟨by rw [h.1, dotCount_eq text], h.2⟩
        · exact .ok ⟨h.1, congrArg some text, h.2.2⟩
      · exact .error hother
  | dotted path =>
      rw [ImportSource.add, ImportSource.add, hopen]
      split
      · exact .ok ⟨h.1, rfl, h.2.2⟩
      · exact .error (.same _)
  | _ => exact .error hother

theorem importFrom_like (h : L.Events r s) (hparts : L.PartLists raw classes items others) :
    L.Outcomes L.Answers (importFrom r items) (importFrom s others) := by
  have hsource : L.Outcomes L.Sources (items.foldlM ImportSource.add .empty)
      (others.foldlM ImportSource.add .empty) := by
    refine Outcomes.foldlM ?_ hparts ⟨rfl, rfl, .nil⟩
    intro _ _ _ _ hstate hitem
    exact importSource_add_like hstate hitem
  rw [importFrom, importFrom]
  apply hsource.bind
  rintro ⟨level, module?, names⟩ ⟨_, _, names'⟩ ⟨rfl, rfl, hnames⟩
  dsimp only
  split
  · exact .error (.same _)
  · apply (allOf_like _ _ hnames).bind
    intro _ _ hkept
    split
    · exact reduction_build_like h nofun
        (.cons _ (.ofText? _) (.cons _ (.list hkept) (.cons _ (.scalar _) .nil)))
    · exact .error (.same _)

end TreeLowering.Likeness
