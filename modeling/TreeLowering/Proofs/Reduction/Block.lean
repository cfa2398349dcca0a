/-
# Compound statements

What the handlers of statements with blocks do with the nodes of their parts. A clause
keeps its nodes until the statement around it places them; a chain of conditions becomes
nested conditionals, and the clauses of a `try` statement are taken in a fixed order.
-/

import TreeLowering.Lowering.Block
import TreeLowering.Proofs.Reduction.Places
import TreeLowering.Proofs.Reduction.Rules

namespace TreeLowering.Lowering

open TreeLowering.Reduced

variable {r : Reduction} {items : List Reduced}

theorem clause_yields : Yields (clause r items) (Reduces r items) := by
  rw [clause_eq]
  split
  · rename_i hrule
    apply Yields.bind (expectNode_yields _ _)
    intro test htest
    apply Yields.bind (block_yields _ _)
    intro body hbody
    apply Yields.bind (noMore_yields _)
    intro _ hrest
    have hgiven := rootsOf_first htest (rootsOf_drop hbody (rootsOf_end hrest))
    exact .ok (.passed (.elif hrule test body) (by simp [hgiven, Clause.roots]))
  · apply Yields.bind (block_yields _ _)
    intro body hbody
    apply Yields.bind (noMore_yields _)
    intro _ hrest
    have hgiven := rootsOf_first hbody (rootsOf_end hrest)
    exact .ok (.passed (.otherwise body) (by simp [hgiven, Clause.roots]))
  · apply Yields.bind (block_yields _ _)
    intro body hbody
    apply Yields.bind (noMore_yields _)
    intro _ hrest
    have hgiven := rootsOf_first hbody (rootsOf_end hrest)
    exact .ok (.passed (.finish body) (by simp [hgiven, Clause.roots]))
  · exact .error trivial

/-! ## Conditionals -/

theorem conditionalAt_yields (position : Position) (test : Node) (body orelse : List Node) :
    Yields (conditionalAt position test body orelse) fun n => n =
      .mk .ifStmt [("test", .node test), ("body", .list body), ("orelse", .list orelse)]
        position := by
  rw [conditionalAt, Node.build_of_slots rfl]
  exact .ok rfl

theorem noMoreBranches_yields : ∀ items : List Reduced,
    Yields (noMoreBranches items) fun _ => rootsOf items = []
  | [] => .ok rfl
  | .absent :: rest => by
      rw [noMoreBranches]
      exact noMoreBranches_yields rest
  | .node _ :: _ => .error trivial
  | .nodes _ :: _ => .error trivial
  | .operator _ :: _ => .error trivial
  | .token _ :: _ => .error trivial
  | .fragment .. :: _ => .error trivial
  | .pair _ _ :: _ => .error trivial
  | .unpack _ :: _ => .error trivial
  | .dotted _ :: _ => .error trivial
  | .level _ :: _ => .error trivial
  | .clause _ :: _ => .error trivial
  | .parameter _ :: _ => .error trivial

/-- Each further condition stands where its clause stood among the given parts. -/
theorem branches_yields (hrule : r.rule = .ifStmt) : ∀ clauses : List Reduced,
    (∀ item ∈ clauses, item ∈ items) →
      Yields (branches clauses) (Branches (Places r items .ifStmt) (rootsOf clauses))
  | [], _ => .ok (.block [])
  | .absent :: rest, h => by
      rw [branches]
      exact branches_yields hrule rest (List.forall_mem_cons.mp h).2
  | .clause (.elif test body position) :: rest, h => by
      obtain ⟨hclause, hrest⟩ := List.forall_mem_cons.mp h
      rw [branches]
      apply Yields.bind (branches_yields hrule rest hrest)
      intro orelse horelse
      apply Yields.bind (conditionalAt_yields position test body orelse)
      intro inner hinner
      subst hinner
      exact .ok (.elif test body (.clause hrule hclause) horelse)
  | .clause (.otherwise body) :: rest, _ => by
      rw [branches]
      apply Yields.bind (noMoreBranches_yields rest)
      intro _ hrest
      rw [rootsOf, hrest, List.append_nil]
      exact .ok (.block body)
  | .clause (.finish _) :: _, _ => .error trivial
  | .node _ :: _, _ => .error trivial
  | .nodes _ :: _, _ => .error trivial
  | .operator _ :: _, _ => .error trivial
  | .token _ :: _, _ => .error trivial
  | .fragment .. :: _, _ => .error trivial
  | .pair _ _ :: _, _ => .error trivial
  | .unpack _ :: _, _ => .error trivial
  | .dotted _ :: _, _ => .error trivial
  | .level _ :: _, _ => .error trivial
  | .parameter _ :: _, _ => .error trivial

theorem ifStatement_yields (hrule : r.rule = .ifStmt) :
    Yields (ifStatement r items) (Reduces r items) := by
  rw [ifStatement_eq]
  apply Yields.bind (expectNode_yields _ _)
  intro test htest
  apply Yields.bind (block_yields _ _)
  intro body hbody
  apply Yields.bind (branches_yields hrule _ fun _ => List.mem_of_mem_drop)
  intro orelse horelse
  apply (conditionalAt_yields _ _ _ _).map
  intro n hn
  subst hn
  exact .built (.ifStmt (rootsOf_first htest (rootsOf_drop hbody rfl)) horelse hrule)

/-! ## Loops -/

theorem forLoop_yields (hrule : r.rule = .forStmt) (h : FollowSchema items) :
    Yields (forLoop r items) (Reduces r items) := by
  rw [forLoop_eq]
  apply Yields.bind (r.expression_yields _ _)
  intro target htarget
  apply Yields.bind ((h.part 0).bind_expressed_yields htarget)
  intro place hplace
  apply Yields.bind (r.expression_yields _ _)
  intro iterable hiterable
  apply Yields.bind (block_yields _ _)
  intro body hbody
  apply Yields.bind (elseBlock_yields _)
  intro orelse horelse
  apply Yields.bind (noMore_yields _)
  intro _ hrest
  have hgiven := rootsOf_first rfl
    (rootsOf_drop rfl (rootsOf_drop hbody (rootsOf_drop horelse (rootsOf_end hrest))))
  rw [List.append_nil] at hgiven
  rw [r.build_of_slots rfl]
  exact .ok (.built (.forStmt hgiven hplace hiterable hrule))

theorem whileLoop_yields (hrule : r.rule = .whileStmt) :
    Yields (whileLoop r items) (Reduces r items) := by
  rw [whileLoop_eq]
  apply Yields.bind (expectNode_yields _ _)
  intro test htest
  apply Yields.bind (block_yields _ _)
  intro body hbody
  apply Yields.bind (elseBlock_yields _)
  intro orelse horelse
  apply Yields.bind (noMore_yields _)
  intro _ hrest
  have hgiven :=
    rootsOf_first htest (rootsOf_drop hbody (rootsOf_drop horelse (rootsOf_end hrest)))
  rw [List.append_nil] at hgiven
  rw [r.build_of_slots rfl]
  exact .ok (.built (.whileStmt hgiven hrule))

/-! ## Exceptions -/

/-- The nodes of the clauses of a `try` statement, in the order of its slots. -/
def TryClauses.nodes (c : TryClauses) : List Node :=
  c.handlers ++ c.otherwise?.getD [] ++ c.finally?.getD []

/-- One more clause leaves the nodes of all clauses in order. The order in which clauses
may come makes sure of it. -/
theorem TryClauses.add_yields (done : List Reduced) (item : Reduced) (c : TryClauses)
    (hdone : rootsOf done = c.nodes) :
    Yields (c.add item) fun next => rootsOf (done ++ [item]) = next.nodes := by
  have happend : rootsOf (done ++ [item]) = c.nodes ++ item.roots := by
    rw [rootsOf_append, rootsOf, hdone, rootsOf, List.append_nil]
  rw [happend]
  obtain ⟨handlers, otherwise?, finally?⟩ := c
  cases item with
  | absent => exact .ok (List.append_nil _)
  | clause c =>
      cases c with
      | elif test body position => exact .error trivial
      | otherwise body =>
          rw [TryClauses.add]
          split
          case isTrue hopen =>
            simp only [Bool.and_eq_true, Option.isNone_iff_eq_none] at hopen
            obtain ⟨rfl, rfl⟩ := hopen
            exact .ok (by simp [TryClauses.nodes, Clause.roots])
          case isFalse => exact .error trivial
      | finish body =>
          rw [TryClauses.add]
          split
          case isTrue hopen =>
            rw [Option.isNone_iff_eq_none] at hopen
            subst hopen
            exact .ok (by simp [TryClauses.nodes, Clause.roots])
          case isFalse => exact .error trivial
  | node | nodes | fragment =>
      rw [TryClauses.add]
      split
      case isTrue hopen =>
        simp only [Bool.and_eq_true, Option.isNone_iff_eq_none] at hopen
        obtain ⟨rfl, rfl⟩ := hopen
        apply Yields.bind (gatherItem_yields _)
        intro found hfound
        subst hfound
        exact .ok (by simp [TryClauses.nodes])
      case isFalse => exact .error trivial
  | _ => exact .error trivial

theorem TryClauses.check_yields (c : TryClauses) :
    Yields c.check fun _ => (∀ n ∈ c.handlers, n.construct = .exceptHandler) ∧
      (c.otherwise?.getD [] ≠ [] → c.handlers ≠ []) := by
  rw [TryClauses.check]
  split
  · exact .error trivial
  · rename_i hnone
    split
    · exact .error trivial
    · split
      case isTrue => exact .error trivial
      case isFalse hguarded =>
        refine .ok ⟨fun n hn => by simpa using List.find?_eq_none.mp hnone n hn, ?_⟩
        intro helse hempty
        cases ho : c.otherwise? with
        | none => simp [ho] at helse
        | some body => simp [hempty, ho] at hguarded

theorem tryStatement_yields (hrule : r.rule = .tryStmt) :
    Yields (tryStatement r items) (Reduces r items) := by
  have hempty : rootsOf [] = TryClauses.empty.nodes := rfl
  have hadded := Yields.foldlM TryClauses.add_yields hempty (items.drop 1)
  rw [tryStatement_eq]
  apply Yields.bind (block_yields _ _)
  intro body hbody
  apply Yields.bind hadded
  intro found hfound
  apply Yields.bind found.check_yields
  intro _ hchecked
  rw [r.build_of_slots rfl]
  exact .ok (.built (.tryStmt (rootsOf_first hbody hfound) hchecked.1 hchecked.2 hrule))

theorem exceptClause_yields (hrule : r.rule = .exceptClause) :
    Yields (exceptClause r items) (Reduces r items) := by
  rw [exceptClause_eq]
  apply Yields.bind (block_yields _ _)
  intro body hbody
  apply Yields.bind (optionalNode_yields _ _)
  intro caught hcaught
  apply Yields.bind (optionalIdentifier_yields _ _)
  intro name hname
  apply Yields.bind (noMore_yields _)
  intro _ hrest
  split
  case isTrue => exact .error trivial
  case isFalse htyped =>
    have hhead := rootsOf_first hcaught (rootsOf_drop rfl (rootsOf_end hrest))
    rw [List.append_nil] at hhead
    rw [r.build_of_slots rfl]
    refine .ok (.built (.exceptHandler hname (rootsOf_last hhead hbody) (fun hsome => ?_) hrule))
    cases caught with
    | none => simp [hsome] at htyped
    | some type => rfl

/-! ## Context managers and the root -/

theorem withStatement_yields (hrule : r.rule = .withStmt) :
    Yields (withStatement r items) (Reduces r items) := by
  rw [withStatement_eq]
  apply Yields.bind (block_yields _ _)
  intro body hbody
  apply Yields.bind (gather_yields _)
  intro nodes hnodes
  apply Yields.bind (allOf_yields _ _ _)
  intro managers hmanagers
  obtain ⟨rfl, hentered⟩ := hmanagers
  rw [r.build_of_slots rfl]
  exact .ok (.built (.withStmt (rootsOf_last hnodes hbody) hentered hrule))

theorem bindOption_yields {usage : Usage} {target : Option Node} {parts : List Reduced}
    (h : FollowSchema parts) (hgiven : rootsOf parts = target.toList) :
    Yields (bindOption usage target) fun place =>
      List.Forall₂ (fun n place => n.bind usage = .ok place) target.toList place.toList := by
  cases target with
  | none => exact .ok .nil
  | some n => exact (h.bind_yields hgiven).map fun place hplace => .cons hplace .nil

theorem withItem_yields (h : FollowSchema items) :
    Yields (withItem r items) (Reduces r items) := by
  rw [withItem_eq]
  apply Yields.bind (expectNode_yields _ _)
  intro manager hmanager
  apply Yields.bind (optionalNode_yields _ _)
  intro target htarget
  apply Yields.bind (bindOption_yields (h.part 1) htarget)
  intro place hplace
  apply Yields.bind (noMore_yields _)
  intro _ hrest
  have hgiven := rootsOf_first hmanager (rootsOf_drop htarget (rootsOf_end hrest))
  rw [r.build_of_slots rfl]
  exact .ok (.built (.withItem (by simpa using hgiven) hplace))

theorem moduleRoot_yields : Yields (moduleRoot r items) (Reduces r items) := by
  rw [moduleRoot]
  apply Yields.bind (gather_yields items)
  intro body hbody
  subst hbody
  rw [r.build_of_slots rfl]
  exact .ok (.built .module)

end TreeLowering.Lowering
