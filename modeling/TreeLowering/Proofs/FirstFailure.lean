/-
# The first failure

A reduction stops at the first branch whose rule cannot answer its parts, in the order
from the leaves, and reports the failure of that rule in its name and at its range. No
branch further out adds to the report, and a branch whose rule has no reduction of its own
never fails. The only other failure of lowering is a root that is no module.
-/

import TreeLowering.Proofs.SchemaPreservation
import TreeLowering.Proofs.Tree.Branches

namespace TreeLowering

open TreeLowering.Reduced ParseTree

variable {options : Options} {tree : ParseTree} {b : Branch} {e cause : Error}

/-! ## Branches that fail -/

/-- A branch has reduced. -/
def Branch.Reduces (options : Options) (b : Branch) : Prop :=
  ∃ value, reduce options b.tree = .ok value

/-- The parts of a branch have all reduced, and the handler of its rule answers them with
a failure. -/
def Branch.Fails (options : Options) (b : Branch) (cause : Error) : Prop :=
  ∃ rule items, Rule.ofName? b.name = some rule ∧ Reducts options b.children items ∧
    handlerOf rule ⟨rule, b.position, options⟩ items = .error cause

/-- All branches before one have reduced, that one fails with a report of its own, and the
failure is that report in the name of its rule and at its range. -/
def FirstFailure (options : Options) (branches : List Branch) (e : Error) : Prop :=
  ∃ before b after cause, branches = before ++ b :: after ∧
    (∀ earlier ∈ before, earlier.Reduces options) ∧ b.Fails options cause ∧
    cause.IsReport ∧ e = .inRule b.name b.position cause

theorem Rule.name_of_ofName? {text : String} {rule : Rule} (h : Rule.ofName? text = some rule) :
    rule.name = text := by
  simpa using List.find?_some h

theorem reduceAll_of_reducts {children : List ParseTree} {items : List Reduced}
    (h : Reducts options children items) : reduceAll options children = .ok items := by
  induction h with
  | nil => rfl
  | cons hhead _ ih => simp only [reduceAll, hhead, ih]

/-- The parts of trees that reduce follow the schema. -/
theorem Reducts.followSchema {children : List ParseTree} {items : List Reduced}
    (h : Reducts options children items) : FollowSchema items :=
  forall_rootsOf_of_reducts h fun _ _ _ => followsSchema_of_reduce

theorem Branch.Fails.isReport (h : b.Fails options cause) : cause.IsReport := by
  obtain ⟨rule, items, _, hitems, hcause⟩ := h
  exact (handlerOf_yields options b.position hitems.followSchema rule).of_error hcause

/-- A failure of a branch is attributed to it. -/
theorem Branch.Fails.reduce_eq (h : b.Fails options cause) :
    reduce options b.tree = .error (.inRule b.name b.position cause) := by
  have hreport := h.isReport
  obtain ⟨rule, items, hname, hitems, hcause⟩ := h
  rw [Branch.tree, reduce, reduceAll_of_reducts hitems]
  simp only [hname, apply, hcause, Except.mapError, hreport.within_eq, Rule.name_of_ofName? hname]

theorem Branch.Fails.not_reduces (h : b.Fails options cause) : ¬ b.Reduces options := by
  rintro ⟨value, hvalue⟩
  rw [h.reduce_eq] at hvalue
  cases hvalue

/-! ## Trees that reduce -/

theorem within_of_mem_branches (h : b ∈ tree.branches) : b.tree.Within tree := by
  induction tree using ParseTree.induction_children with
  | absent => cases h
  | token t => cases h
  | rule name children position ih =>
      rcases mem_branches_rule.mp h with ⟨child, hchild, hb⟩ | rfl
      · exact .inside hchild (ih child hchild hb)
      · exact .here

/-- Where a tree reduces, all its branches do. -/
theorem reduces_of_mem_branches {value : Reduced} (htree : reduce options tree = .ok value)
    (h : b ∈ tree.branches) : b.Reduces options :=
  reduce_within (within_of_mem_branches h) htree

theorem reduces_of_mem_branchesOf {trees : List ParseTree}
    (htrees : ∀ tree ∈ trees, ∃ value, reduce options tree = .ok value)
    (h : b ∈ branchesOf trees) : b.Reduces options := by
  obtain ⟨tree, htree, hb⟩ := mem_branchesOf.mp h
  obtain ⟨value, hvalue⟩ := htrees tree htree
  exact reduces_of_mem_branches hvalue hb

/-! ## Trees that do not -/

/-- Of children that do not all reduce, one is the first. -/
theorem exists_first_of_reduceAll_eq_error {children : List ParseTree}
    (h : reduceAll options children = .error e) :
    ∃ first child rest, children = first ++ child :: rest ∧
      (∀ earlier ∈ first, ∃ value, reduce options earlier = .ok value) ∧
      reduce options child = .error e := by
  induction children with
  | nil => cases h
  | cons child rest ih =>
      rw [reduceAll] at h
      cases hchild : reduce options child with
      | error found =>
          simp only [hchild] at h
          cases h
          exact ⟨[], child, rest, rfl, by simp, hchild⟩
      | ok value =>
          cases hrest : reduceAll options rest with
          | ok values => simp [hchild, hrest] at h
          | error found =>
              simp only [hchild, hrest] at h
              cases h
              obtain ⟨first, failing, behind, rfl, hfirst, hfailing⟩ := ih hrest
              refine ⟨child :: first, failing, behind, rfl, ?_, hfailing⟩
              exact List.forall_mem_cons.mpr ⟨⟨value, hchild⟩, hfirst⟩

/-- A first failure stays one among more branches, if those before it have reduced. -/
theorem FirstFailure.widen {branches before : List Branch} (h : FirstFailure options branches e)
    (hbefore : ∀ b ∈ before, b.Reduces options) (after : List Branch) :
    FirstFailure options (before ++ (branches ++ after)) e := by
  obtain ⟨earlier, b, later, cause, rfl, hearlier, hfails, hreport, rfl⟩ := h
  refine ⟨before ++ earlier, b, later ++ after, cause, by simp, ?_, hfails, hreport, rfl⟩
  exact List.forall_mem_append.mpr ⟨hbefore, hearlier⟩

/-- A branch whose children reduce, but that does not, fails itself. -/
theorem exists_fails_of_reducts {items : List Reduced} (hitems : Reducts options b.children items)
    (h : reduce options b.tree = .error e) : ∃ cause, b.Fails options cause := by
  rw [Branch.tree, reduce, reduceAll_of_reducts hitems] at h
  cases hname : Rule.ofName? b.name with
  | none => simp [hname] at h
  | some rule =>
      simp only [hname, apply] at h
      cases hhandler : handlerOf rule ⟨rule, b.position, options⟩ items with
      | ok value =>
          rw [hhandler] at h
          cases h
      | error cause => exact ⟨cause, rule, items, hname, hitems, hhandler⟩

theorem firstFailure_of_reduce_eq_error (h : reduce options tree = .error e) :
    FirstFailure options tree.branches e := by
  induction tree using ParseTree.induction_children generalizing e with
  | absent => cases h
  | token t => cases h
  | rule name children position ih =>
      cases hchildren : reduceAll options children with
      | error found =>
          rw [reduce, hchildren] at h
          cases h
          obtain ⟨first, child, rest, rfl, hfirst, hchild⟩ :=
            exists_first_of_reduceAll_eq_error hchildren
          have hfailure := ih child (by simp) hchild
          have hwide := hfailure.widen (fun _ => reduces_of_mem_branchesOf hfirst)
            (branchesOf rest ++ [⟨name, first ++ child :: rest, position⟩])
          simpa [branches, branchesOf] using hwide
      | ok items =>
          have hitems := reduceAll_eq_ok hchildren
          have hbefore : ∀ child ∈ children, ∃ value, reduce options child = .ok value := by
            intro child hchild
            obtain ⟨item, _, hitem⟩ := exists_of_forall₂_right hitems.flip hchild
            exact ⟨item, hitem⟩
          obtain ⟨cause, hfails⟩ :=
            exists_fails_of_reducts (b := ⟨name, children, position⟩) hitems h
          exact ⟨branchesOf children, _, [], cause, rfl,
            fun _ => reduces_of_mem_branchesOf hbefore, hfails, hfails.isReport,
            Except.error.inj (h.symm.trans hfails.reduce_eq)⟩

/-- Only one branch is the first to fail. -/
theorem FirstFailure.unique {branches : List Branch} {other : Error}
    (h : FirstFailure options branches e) (hother : FirstFailure options branches other) :
    e = other := by
  obtain ⟨before, b, after, cause, rfl, hbefore, hfails, _, rfl⟩ := h
  obtain ⟨before', b', after', cause', heq, hbefore', hfails', _, rfl⟩ := hother
  induction before generalizing before' with
  | nil =>
      cases before' with
      | nil =>
          obtain ⟨rfl, _⟩ := List.cons.inj heq
          exact Except.error.inj (hfails.reduce_eq.symm.trans hfails'.reduce_eq)
      | cons first rest =>
          obtain ⟨rfl, _⟩ := List.cons.inj heq
          exact absurd (hbefore' b List.mem_cons_self) hfails.not_reduces
  | cons first rest ih =>
      cases before' with
      | nil =>
          obtain ⟨rfl, _⟩ := List.cons.inj heq
          exact absurd (hbefore first List.mem_cons_self) hfails'.not_reduces
      | cons first' rest' =>
          obtain ⟨rfl, hrest⟩ := List.cons.inj heq
          exact ih (fun x hx => hbefore x (List.mem_cons_of_mem _ hx)) rest'
            hrest (fun x hx => hbefore' x (List.mem_cons_of_mem _ hx))

theorem reduce_eq_error_iff :
    reduce options tree = .error e ↔ FirstFailure options tree.branches e := by
  refine ⟨firstFailure_of_reduce_eq_error, fun h => ?_⟩
  cases hreduce : reduce options tree with
  | ok value =>
      obtain ⟨before, b, after, cause, hbranches, _, hfails, _⟩ := h
      have hmem : b ∈ tree.branches := by simp [hbranches]
      exact absurd (reduces_of_mem_branches hreduce hmem) hfails.not_reduces
  | error found =>
      exact congrArg _ ((firstFailure_of_reduce_eq_error hreduce).unique h)

/-! ## Whole trees -/

/-- The result of a reduction is a module. -/
def Reduced.IsModule (result : Reduced) : Prop :=
  ∃ n, result = .node n ∧ n.construct = .module

theorem expectModule_eq_error_iff {result : Reduced} :
    expectModule result = .error e ↔ ¬ result.IsModule ∧ e = .notAModule result.describe := by
  cases result with
  | node n =>
      rw [expectModule]
      by_cases hmodule : n.construct = .module
      · simp [hmodule, Reduced.IsModule]
      · simp [hmodule, Reduced.IsModule, eq_comm (a := e)]
  | _ => simp [expectModule, Reduced.IsModule, eq_comm]

theorem transform_eq_error_iff :
    transform options tree = .error e ↔ reduce options tree = .error e ∨
      ∃ result, reduce options tree = .ok result ∧ ¬ result.IsModule ∧
        e = .notAModule result.describe := by
  rw [transform]
  cases hreduce : reduce options tree with
  | error found => simp [Except.bind]
  | ok result => simp [Except.bind, expectModule_eq_error_iff]

/-- A failure to lower a tree has no advice of its own. The advice on a report of a rule
stays with the cause, since the failure only names the rule. -/
theorem help?_of_transform_eq_error (h : transform options tree = .error e) : e.help? = none := by
  rcases transform_eq_error_iff.mp h with hreduce | ⟨_, _, _, rfl⟩
  · obtain ⟨_, _, _, _, _, _, _, _, rfl⟩ := reduce_eq_error_iff.mp hreduce
    rfl
  · rfl

/-- A tree fails to reduce exactly when one of its branches fails, and then with the report
of the first one. Branches without a reduction of their own never fail. Lowering fails as
the reduction does, or at a root that reduces to anything but a module. -/
theorem failure_of_first_branch (options : Options) (tree : ParseTree) :
    ((∃ e, reduce options tree = .error e) ↔
        ∃ b ∈ tree.branches, ∃ cause, b.Fails options cause) ∧
      (∀ e, reduce options tree = .error e ↔ FirstFailure options tree.branches e) ∧
      (∀ b ∈ tree.branches, Rule.ofName? b.name = none →
        ∀ items, Reducts options b.children items →
          reduce options b.tree = .ok (.fragment b.name items b.position)) ∧
      ∀ e, transform options tree = .error e ↔ reduce options tree = .error e ∨
        ∃ result, reduce options tree = .ok result ∧ ¬ result.IsModule ∧
          e = .notAModule result.describe := by
  refine ⟨⟨?_, ?_⟩, fun _ => reduce_eq_error_iff, ?_, fun _ => transform_eq_error_iff⟩
  · rintro ⟨e, h⟩
    obtain ⟨before, b, after, cause, hbranches, _, hfails, _⟩ := reduce_eq_error_iff.mp h
    exact ⟨b, by simp [hbranches], cause, hfails⟩
  · rintro ⟨b, hb, cause, hfails⟩
    cases hreduce : reduce options tree with
    | ok value => exact absurd (reduces_of_mem_branches hreduce hb) hfails.not_reduces
    | error e => exact ⟨e, rfl⟩
  · intro b _ hname items hitems
    rw [Branch.tree, reduce, reduceAll_of_reducts hitems]
    simp only [hname]

/-- An unknown operator in a group of its own, and an empty deletion behind it. -/
def twoFaults : ParseTree :=
  .rule "file_input" [
    .rule "group" [.rule "add_op" [.token ⟨"OP", "%%", .unknown⟩] ⟨1, 3, 1, 5⟩] ⟨1, 1, 1, 6⟩,
    .rule "del_stmt" [] ⟨2, 1, 2, 4⟩] ⟨1, 1, 2, 4⟩

/-- Both faults would fail, but only the operator is reported, without the group and the
module around it. -/
theorem failure_of_first_branch_operator :
    FirstFailure .default twoFaults.branches
      (.inRule "add_op" ⟨1, 3, 1, 5⟩ (.unrecognized "`add_op` token" "%%")) := by
  have hreported : (reduce .default twoFaults).map (fun _ => ()) =
      .error (.inRule "add_op" ⟨1, 3, 1, 5⟩ (.unrecognized "`add_op` token" "%%")) := by
    decide +kernel
  apply ((failure_of_first_branch .default twoFaults).2.1 _).mp
  cases hreduce : reduce .default twoFaults with
  | ok value =>
      rw [hreduce] at hreported
      cases hreported
  | error e =>
      rw [hreduce] at hreported
      cases hreported
      rfl

end TreeLowering
