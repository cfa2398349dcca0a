/-
# Like compound statements

The handlers of compound statements and of their clauses answer like parts alike. Clauses
are collected one after another, and those collected so far are like in both runs.
-/

import TreeLowering.Lowering.Block
import TreeLowering.Proofs.Reduction.Places
import TreeLowering.Proofs.TwoRuns.Parts

namespace TreeLowering.Likeness

open TreeLowering.Lowering TreeLowering.Reduced

variable {L : Likeness} {raw classes : Prop} {r s : Reduction}
variable {items others : List Reduced} {item other : Reduced}

/-! ## Trailing clauses -/

theorem clause_like (h : L.Events r s) (hparts : L.PartLists raw classes items others) :
    L.Outcomes L.Answers (clause r items) (clause s others) := by
  rw [clause_eq, clause_eq, h.rule]
  split
  · apply (expectNode_like _ (rel_getElem? hparts 0)).bind
    intro _ _ htest
    apply (block_like _ (rel_getElem? hparts 1)).bind
    intro _ _ hbody
    apply (noMore_like (List.forall₂_drop 2 hparts)).bind
    intro _ _ _
    exact .ok (.elif htest hbody h.range)
  · apply (block_like _ (rel_getElem? hparts 0)).bind
    intro _ _ hbody
    apply (noMore_like (List.forall₂_drop 1 hparts)).bind
    intro _ _ _
    exact .ok (.otherwise hbody)
  · apply (block_like _ (rel_getElem? hparts 0)).bind
    intro _ _ hbody
    apply (noMore_like (List.forall₂_drop 1 hparts)).bind
    intro _ _ _
    exact .ok (.finish hbody)
  · exact .error (.same _)

theorem conditionalAt_like {p q : Position} (hrange : L.Ranges p q) {n m : Node}
    (htest : L.Nodes n m) {body body' orelse orelse' : List Node} (hbody : L.NodeLists body body')
    (horelse : L.NodeLists orelse orelse') :
    L.Outcomes L.Nodes (conditionalAt p n body orelse) (conditionalAt q m body' orelse') := by
  rw [conditionalAt, conditionalAt]
  exact build_like (nofun : Construct.ifStmt ≠ .constant)
    (.cons _ (.node htest) (.cons _ (.list hbody) (.cons _ (.list horelse) .nil))) hrange

theorem noMoreBranches_like (hparts : L.PartLists raw classes items others) :
    L.Outcomes Eq (noMoreBranches items) (noMoreBranches others) := by
  induction hparts with
  | nil => exact .ok rfl
  | cons hitem _ ih =>
      have hother := unexpected_like "elif or else clause" (.some hitem)
      cases hitem with
      | absent => exact ih
      | _ => exact .error hother

/-- The statements behind a condition that fails, by the clauses from the last one on. -/
theorem branches_like (hparts : L.PartLists raw classes items others) :
    L.Outcomes L.NodeLists (branches items) (branches others) := by
  induction hparts with
  | nil => exact .ok .nil
  | cons hitem hrest ih =>
      have hother := unexpected_like "elif or else clause" (.some hitem)
      cases hitem with
      | absent => exact ih
      | elif test like range =>
          rw [branches, branches]
          apply ih.bind
          intro _ _ horelse
          apply (conditionalAt_like range test like horelse).bind
          intro _ _ hinner
          exact .ok (.cons hinner .nil)
      | otherwise like =>
          rw [branches, branches]
          apply (noMoreBranches_like hrest).bind
          intro _ _ _
          exact .ok like
      | _ => exact .error hother

/-- The clauses of a `try` statement so far: both runs have the same ones, with like
statements. -/
structure TryParts (L : Likeness) (a b : TryClauses) : Prop where
  handlers : L.NodeLists a.handlers b.handlers
  otherwise? : Option.Rel L.NodeLists a.otherwise? b.otherwise?
  finally? : Option.Rel L.NodeLists a.finally? b.finally?

/-- The next clause is taken alike by `try` statements with like clauses so far. -/
theorem tryClauses_add_like {a b : TryClauses} (h : L.TryParts a b)
    (hitem : L.Parts raw classes item other) :
    L.Outcomes L.TryParts (a.add item) (b.add other) := by
  have hother := unexpected_like "try clause" (.some hitem)
  have hclosed : (a.otherwise?.isNone && a.finally?.isNone) =
      (b.otherwise?.isNone && b.finally?.isNone) := by
    rw [isNone_eq h.otherwise?, isNone_eq h.finally?]
  have hgather : L.Outcomes L.TryParts
      (gatherItem item >>= fun found => .ok { a with handlers := a.handlers ++ found })
      (gatherItem other >>= fun found => .ok { b with handlers := b.handlers ++ found }) := by
    apply (gatherItem_like item hitem).bind
    intro _ _ hfound
    exact .ok ⟨List.rel_append h.handlers hfound, h.otherwise?, h.finally?⟩
  have hhandlers : L.Outcomes L.TryParts
      (if a.otherwise?.isNone && a.finally?.isNone then
        gatherItem item >>= fun found => .ok { a with handlers := a.handlers ++ found }
      else .error (unexpected "try clause" (some item)))
      (if b.otherwise?.isNone && b.finally?.isNone then
        gatherItem other >>= fun found => .ok { b with handlers := b.handlers ++ found }
      else .error (unexpected "try clause" (some other))) := by
    rw [hclosed]
    split
    · exact hgather
    · exact .error hother
  cases hitem with
  | absent => exact .ok h
  | otherwise like =>
      rw [TryClauses.add, TryClauses.add, hclosed]
      split
      · exact .ok ⟨h.handlers, .some like, h.finally?⟩
      · exact .error hother
  | finish like =>
      rw [TryClauses.add, TryClauses.add, isNone_eq h.finally?]
      split
      · exact .ok ⟨h.handlers, h.otherwise?, .some like⟩
      · exact .error hother
  | node => exact hhandlers
  | nodes => exact hhandlers
  | fragment => exact hhandlers
  | _ => exact .error hother

theorem tryClauses_check_like {a b : TryClauses} (h : L.TryParts a b) :
    L.Outcomes Eq a.check b.check := by
  have hstray := rel_find? h.handlers fun (n m : Node) (like : L.Nodes n m) =>
    congrArg (fun kind => decide (kind ≠ .exceptHandler)) like.construct_eq.symm
  rw [TryClauses.check, TryClauses.check, isEmpty_eq h.handlers, isNone_eq h.finally?,
    isSome_eq h.otherwise?]
  rcases rel_cases hstray with ⟨hv, hw⟩ | ⟨v, w, hv, hw, like⟩
  · rw [hv, hw]
    dsimp only
    split
    · exact .error (.same _)
    · split
      · exact .error (.same _)
      · exact .ok rfl
  · rw [hv, hw]
    exact .error (unexpected_node_like _ like)

theorem getD_nil_like {d e : Option (List Node)} (h : Option.Rel L.NodeLists d e) :
    L.NodeLists (d.getD []) (e.getD []) := by
  cases h with
  | none => exact .nil
  | some like => exact like

theorem bindOption_like (usage : Usage) {d e : Option Node} (h : Option.Rel L.Nodes d e) :
    L.Outcomes (Option.Rel L.Nodes) (bindOption usage d) (bindOption usage e) := by
  cases h with
  | none => exact .ok .none
  | some like => exact (bind_like usage like).map fun _ _ => .some

/-! ## Compound statements -/

section

variable (h : L.Events r s) (hparts : L.PartLists raw classes items others)

include h hparts

theorem ifStatement_like :
    L.Outcomes L.Answers (ifStatement r items) (ifStatement s others) := by
  rw [ifStatement_eq, ifStatement_eq]
  apply (expectNode_like _ (rel_getElem? hparts 0)).bind
  intro _ _ htest
  apply (block_like _ (rel_getElem? hparts 1)).bind
  intro _ _ hbody
  apply (branches_like (List.forall₂_drop 2 hparts)).bind
  intro _ _ horelse
  exact (conditionalAt_like h.range htest hbody horelse).map fun _ _ => .node

theorem forLoop_like : L.Outcomes L.Answers (forLoop r items) (forLoop s others) := by
  rw [forLoop_eq, forLoop_eq]
  apply (expression_like h _ (rel_getElem? hparts 0)).bind
  intro _ _ hbinding
  apply (bind_like .write hbinding).bind
  intro _ _ htarget
  apply (expression_like h _ (rel_getElem? hparts 1)).bind
  intro _ _ hiterable
  apply (block_like _ (rel_getElem? hparts 2)).bind
  intro _ _ hbody
  apply (elseBlock_like (rel_getElem? hparts 3)).bind
  intro _ _ horelse
  exact build_at_end_like h nofun (List.forall₂_drop 4 hparts) (.cons _ (.node htarget)
    (.cons _ (.node hiterable) (.cons _ (.list hbody) (.cons _ (.list horelse) .nil))))

theorem whileLoop_like :
    L.Outcomes L.Answers (whileLoop r items) (whileLoop s others) := by
  rw [whileLoop_eq, whileLoop_eq]
  apply (expectNode_like _ (rel_getElem? hparts 0)).bind
  intro _ _ htest
  apply (block_like _ (rel_getElem? hparts 1)).bind
  intro _ _ hbody
  apply (elseBlock_like (rel_getElem? hparts 2)).bind
  intro _ _ horelse
  exact build_at_end_like h nofun (List.forall₂_drop 3 hparts)
    (.cons _ (.node htest) (.cons _ (.list hbody) (.cons _ (.list horelse) .nil)))

theorem tryStatement_like :
    L.Outcomes L.Answers (tryStatement r items) (tryStatement s others) := by
  have hclauses : L.Outcomes L.TryParts ((items.drop 1).foldlM TryClauses.add .empty)
      ((others.drop 1).foldlM TryClauses.add .empty) := by
    refine Outcomes.foldlM ?_ (List.forall₂_drop 1 hparts) ⟨.nil, .none, .none⟩
    intro _ _ _ _ hstate hitem
    exact tryClauses_add_like hstate hitem
  rw [tryStatement_eq, tryStatement_eq]
  apply (block_like _ (rel_getElem? hparts 0)).bind
  intro _ _ hbody
  apply hclauses.bind
  intro _ _ hfound
  apply (tryClauses_check_like hfound).bind
  intro _ _ _
  exact reduction_build_like h nofun (.cons _ (.list hbody) (.cons _ (.list hfound.handlers)
    (.cons _ (.list (getD_nil_like hfound.otherwise?))
      (.cons _ (.list (getD_nil_like hfound.finally?)) .nil))))

theorem exceptClause_like :
    L.Outcomes L.Answers (exceptClause r items) (exceptClause s others) := by
  have hbefore := forall₂_dropLast hparts
  rw [exceptClause_eq, exceptClause_eq]
  apply (block_like _ (rel_getLast? hparts)).bind
  intro _ _ hbody
  apply (optionalNode_like _ (rel_getElem? hbefore 0)).bind
  intro _ _ hcaught
  apply (optionalIdentifier_like _ (rel_getElem? hbefore 1)).bind
  rintro name _ rfl
  apply (noMore_like (List.forall₂_drop 2 hbefore)).bind
  intro _ _ _
  rw [isNone_eq hcaught]
  split
  · exact .error (.same _)
  · exact reduction_build_like h nofun
      (.cons _ (.ofOption hcaught) (.cons _ (.ofText? name) (.cons _ (.list hbody) .nil)))

theorem withStatement_like :
    L.Outcomes L.Answers (withStatement r items) (withStatement s others) := by
  rw [withStatement_eq, withStatement_eq]
  apply (block_like _ (rel_getLast? hparts)).bind
  intro _ _ hbody
  apply (gather_like _ (forall₂_dropLast hparts)).bind
  intro _ _ hnodes
  apply (allOf_like _ _ hnodes).bind
  intro _ _ hmanagers
  exact reduction_build_like h nofun (.cons _ (.list hmanagers) (.cons _ (.list hbody) .nil))

theorem withItem_like : L.Outcomes L.Answers (withItem r items) (withItem s others) := by
  rw [withItem_eq, withItem_eq]
  apply (expectNode_like _ (rel_getElem? hparts 0)).bind
  intro _ _ hmanager
  apply (optionalNode_like _ (rel_getElem? hparts 1)).bind
  intro _ _ hbinding
  apply (bindOption_like .write hbinding).bind
  intro _ _ htarget
  exact build_at_end_like h nofun (List.forall₂_drop 2 hparts)
    (.cons _ (.node hmanager) (.cons _ (.ofOption htarget) .nil))

theorem moduleRoot_like :
    L.Outcomes L.Answers (moduleRoot r items) (moduleRoot s others) := by
  rw [moduleRoot, moduleRoot]
  apply (gather_like items hparts).bind
  intro _ _ hbody
  exact reduction_build_like h nofun (.cons _ (.list hbody) (.cons _ (.list .nil) .nil))

end

end TreeLowering.Likeness
