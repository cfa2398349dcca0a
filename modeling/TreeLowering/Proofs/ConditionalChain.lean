/-
# Chains of conditions

An `if` statement with its `elif` clauses becomes conditionals nested in one another, each
in the place where the statements of a failed condition stand. The chain can be read back
from them, and running them runs the block of the first condition in source order that
holds, whatever the conditions do when they are evaluated.
-/

import TreeLowering.Proofs.NodeGroups
import TreeLowering.Proofs.Reduction.Places

namespace TreeLowering

open TreeLowering.Lowering TreeLowering.Reduced

/-! ## Arms -/

/-- A condition with the block that is run where it holds. -/
structure Arm where
  test : Node
  body : List Node
  position : Position

namespace Arm

/-- The clause of a further condition. -/
def clause (arm : Arm) : Reduced :=
  .clause (.elif arm.test arm.body arm.position)

/-- The conditional that runs the given statements where the condition fails. -/
def conditional (arm : Arm) (orelse : List Node) : Node :=
  .mk .ifStmt [("test", .node arm.test), ("body", .list arm.body), ("orelse", .list orelse)]
    arm.position

/-- The statements for a chain of conditions and the block behind them. -/
def nested : List Arm → List Node → List Node
  | [], last => last
  | arm :: rest, last => [arm.conditional (nested rest last)]

end Arm

variable {arm : Arm} {last orelse : List Node} {items : List Reduced}

/-! ## Reading -/

namespace Node

/-- The condition of a conditional with its block, and the statements for where it fails. -/
def conditional? (n : Node) : Option (Arm × List Node) :=
  match n.construct, n.get? "test", n.get? "body", n.get? "orelse" with
  | .ifStmt, some (.node test), some (.list body), some (.list orelse) =>
      some (⟨test, body, n.position⟩, orelse)
  | _, _, _, _ => none

/-- A number of conditions, read by walking down the statements for where each of them
fails, and the statements behind the last one. They are counted because the block of an
`else` may be a single conditional as well, which is no part of the chain. -/
def chain? : ℕ → List Node → Option (List Arm × List Node)
  | 0, statements => some ([], statements)
  | count + 1, [n] => do
      let (arm, orelse) ← n.conditional?
      let (arms, last) ← chain? count orelse
      some (arm :: arms, last)
  | _ + 1, _ => none

theorem conditional?_conditional : (arm.conditional orelse).conditional? = some (arm, orelse) :=
  rfl

theorem chain?_nested (arms : List Arm) (last : List Node) :
    chain? arms.length (Arm.nested arms last) = some (arms, last) := by
  induction arms with
  | nil => rw [List.length_nil, Arm.nested, chain?]
  | cons arm rest ih =>
      rw [List.length_cons, Arm.nested, chain?, conditional?_conditional]
      simp [ih]

/-! ## Running -/

theorem sizeOf_lt_of_get? {n : Node} {slot : String} {statements : List Node}
    (h : n.get? slot = some (.list statements)) : sizeOf statements < sizeOf n := by
  obtain ⟨construct, fields, position⟩ := n
  obtain ⟨before, after, hfields, -⟩ := List.lookup_eq_some_iff.mp h
  have hmem : (slot, Value.list statements) ∈ fields := by
    rw [show fields = _ from hfields]
    simp
  have hlt := List.sizeOf_lt_of_mem hmem
  simp only [Prod.mk.sizeOf_spec, Value.list.sizeOf_spec] at hlt
  simp only [mk.sizeOf_spec]
  omega

/-- A conditional is larger than its blocks. -/
theorem sizeOf_lt_of_conditional? {n : Node} (h : n.conditional? = some (arm, orelse)) :
    sizeOf arm.body < sizeOf n ∧ sizeOf orelse < sizeOf n := by
  rw [conditional?] at h
  split at h
  case h_1 hbody horelse =>
    cases h
    exact ⟨sizeOf_lt_of_get? hbody, sizeOf_lt_of_get? horelse⟩
  case h_2 => cases h

variable {m : Type → Type} [Monad m] (holds : Node → m Bool) (run : Node → m Unit)

mutual

/-- A conditional evaluates its condition and runs one of its blocks; any other statement
is run as given. -/
def execute (n : Node) : m Unit :=
  match h : n.conditional? with
  | some (arm, orelse) =>
      have := sizeOf_lt_of_conditional? h
      do if ← holds arm.test then executeAll arm.body else executeAll orelse
  | none => run n
termination_by sizeOf n

/-- Statements are run in their order. -/
def executeAll : List Node → m Unit
  | [] => pure ()
  | n :: rest => do
      execute n
      executeAll rest
termination_by statements => sizeOf statements

end

theorem execute_conditional (arm : Arm) (orelse : List Node) :
    execute holds run (arm.conditional orelse) = (do
      if ← holds arm.test then executeAll holds run arm.body
      else executeAll holds run orelse) := by
  rw [execute]
  rfl

variable [LawfulMonad m]

theorem executeAll_singleton (n : Node) : executeAll holds run [n] = execute holds run n := by
  rw [executeAll, executeAll, bind_pure_unit]

/-- Running nested conditionals evaluates their conditions up to the first one that holds, and
runs its block. -/
theorem executeAll_nested (arms : List Arm) (last : List Node) :
    executeAll holds run (Arm.nested arms last) = (do
      let first? ← arms.findM? fun arm => holds arm.test
      executeAll holds run ((first?.map Arm.body).getD last)) := by
  induction arms with
  | nil => rw [Arm.nested, List.findM?, pure_bind]; rfl
  | cons arm rest ih =>
      rw [Arm.nested, executeAll_singleton, execute_conditional, List.findM?, bind_assoc]
      -- both sides have evaluated the first condition, and only if it fails they go on
      refine bind_congr fun held => ?_
      cases held with
      | true => simp only [if_true, pure_bind, Option.map_some, Option.getD_some]
      | false => exact ih

theorem execute_nested (arm : Arm) (rest : List Arm) (last : List Node) :
    execute holds run (arm.conditional (Arm.nested rest last)) = (do
      let first? ← (arm :: rest).findM? fun arm => holds arm.test
      executeAll holds run ((first?.map Arm.body).getD last)) := by
  rw [← executeAll_nested, Arm.nested, executeAll_singleton]

/-- Where conditions are nothing but true or false, the block is that of the first true one. -/
theorem execute_nested_pure (truth : Node → Bool) (arm : Arm) (rest : List Arm)
    (last : List Node) :
    execute (fun test => pure (truth test)) run (arm.conditional (Arm.nested rest last)) =
      executeAll (fun test => pure (truth test)) run
        ((((arm :: rest).find? fun arm => truth arm.test).map Arm.body).getD last) := by
  rw [execute_nested, List.findM?_pure, pure_bind]

end Node

/-! ## Acceptance -/

namespace Lowering

variable {elifs : List Arm} {last? : Option (List Node)}

theorem noMoreBranches_eq_ok_iff {done : Unit} :
    noMoreBranches items = .ok done ↔ present items = [] := by
  induction items with
  | nil => simp [noMoreBranches]
  | cons item rest ih =>
      cases item with
      | absent => rw [noMoreBranches, ih, present_absent_cons]
      | _ => simp [noMoreBranches, present, isAbsent]

/-- Placeholders are passed over among the clauses of a conditional. -/
theorem branches_present (items : List Reduced) : branches (present items) = branches items :=
  eq_present (fun _ _ => branches_within) items

/-- Clauses in order are nested in one another. -/
theorem branches_clauses (elifs : List Arm) (last? : Option (List Node)) :
    branches (elifs.map Arm.clause ++ optionalClause .otherwise last?) =
      .ok (Arm.nested elifs (last?.getD [])) := by
  induction elifs with
  | nil => cases last? <;> rfl
  | cons arm rest ih =>
      rw [List.map_cons, List.cons_append, Arm.clause, branches, ih]
      rfl

theorem exists_clauses_of_branches (h : branches items = .ok orelse) :
    ∃ (elifs : List Arm) (last? : Option (List Node)),
      present items = elifs.map Arm.clause ++ optionalClause .otherwise last? := by
  induction items generalizing orelse with
  | nil => exact ⟨[], none, rfl⟩
  | cons item rest ih =>
      cases item with
      | absent => exact ih h
      | clause c =>
          rw [present_cons rfl]
          cases c with
          | elif test body position =>
              obtain ⟨_, hrest, -⟩ := exists_of_bind_eq_ok h
              obtain ⟨elifs, last?, hpresent⟩ := ih hrest
              exact ⟨⟨test, body, position⟩ :: elifs, last?, congrArg _ hpresent⟩
          | otherwise body =>
              -- the `else` closes the chain: only placeholders are left
              obtain ⟨_, hrest, -⟩ := exists_of_bind_eq_ok h
              exact ⟨[], some body, congrArg _ (noMoreBranches_eq_ok_iff.mp hrest)⟩
          | finish body => cases h
      | _ => cases h

/-- The clauses behind an `if` are any number of `elif` clauses and at most one `else`. -/
theorem branches_eq_ok_iff :
    branches items = .ok orelse ↔ ∃ (elifs : List Arm) (last? : Option (List Node)),
      present items = elifs.map Arm.clause ++ optionalClause .otherwise last? ∧
        Arm.nested elifs (last?.getD []) = orelse := by
  constructor
  · intro h
    obtain ⟨elifs, last?, hpresent⟩ := exists_clauses_of_branches h
    rw [← branches_present, hpresent, branches_clauses] at h
    exact ⟨elifs, last?, hpresent, Except.ok.inj h⟩
  · rintro ⟨elifs, last?, hpresent, rfl⟩
    rw [← branches_present, hpresent, branches_clauses]

theorem conditionalAt_eq (arm : Arm) (orelse : List Node) :
    conditionalAt arm.position arm.test arm.body orelse = .ok (arm.conditional orelse) :=
  Node.build_of_slots rfl arm.position

theorem ifStatement_eq_ok_iff {r : Reduction} {test : Node} {part : Reduced} {result : Reduced} :
    ifStatement r (.node test :: part :: items) = .ok result ↔
      part.isGroup ∧ ∃ (elifs : List Arm) (last? : Option (List Node)),
        present items = elifs.map Arm.clause ++ optionalClause .otherwise last? ∧
          result = .node (Arm.conditional ⟨test, part.roots, r.position⟩
            (Arm.nested elifs (last?.getD []))) := by
  have hbuild (orelse : List Node) : conditionalAt r.position test part.roots orelse = _ :=
    conditionalAt_eq ⟨test, part.roots, r.position⟩ orelse
  rw [ifStatement_eq]
  simp only [List.getElem?_cons_zero, List.getElem?_cons_succ, List.drop_succ_cons, List.drop_zero,
    expectNode, bind_eq_ok_iff, map_eq_ok_iff, block_eq_ok_iff, branches_eq_ok_iff]
  constructor
  · rintro ⟨_, ⟨⟩, _, ⟨_, ⟨⟩, hgroup, rfl⟩, _, ⟨elifs, last?, hpresent, rfl⟩, n, hn, rfl⟩
    rw [hbuild] at hn
    cases hn
    exact ⟨hgroup, elifs, last?, hpresent, rfl⟩
  · rintro ⟨hgroup, elifs, last?, hpresent, rfl⟩
    exact ⟨_, rfl, _, ⟨_, rfl, hgroup, rfl⟩, _, ⟨elifs, last?, hpresent, rfl⟩, _, hbuild _, rfl⟩

end Lowering

open Lowering in
/-- An `if` statement is accepted exactly when it has a block and the parts behind the block,
without placeholders, are `elif` clauses and then at most one `else`. Its condition, those of
the `elif` clauses and the block of the `else` can be read back from the result. Running the
result runs the block of the first condition in source order that holds, or else the block
behind them. -/
theorem apply_ifStmt_eq_ok_iff (options : Options) (position : Position) (test : Node)
    (part : Reduced) (rest : List Reduced) :
    ((∃ result, apply options .ifStmt position (.node test :: part :: rest) = .ok result) ↔
      part.isGroup ∧ ∃ (elifs : List Arm) (last? : Option (List Node)),
        present rest = elifs.map Arm.clause ++ optionalClause .otherwise last?) ∧
    ∀ (elifs : List Arm) (last? : Option (List Node)),
      present rest = elifs.map Arm.clause ++ optionalClause .otherwise last? →
      ∀ result, apply options .ifStmt position (.node test :: part :: rest) = .ok result →
        ∃ n arms, result = .node n ∧ arms = ⟨test, part.roots, position⟩ :: elifs ∧
          Node.chain? arms.length [n] = some (arms, last?.getD []) ∧
          (∀ (m : Type → Type) [Monad m] [LawfulMonad m] (holds : Node → m Bool)
            (run : Node → m Unit), n.execute holds run = do
              let first? ← arms.findM? fun arm => holds arm.test
              Node.executeAll holds run ((first?.map Arm.body).getD (last?.getD []))) ∧
          ∀ (m : Type → Type) [Monad m] [LawfulMonad m] (truth : Node → Bool)
            (run : Node → m Unit), n.execute (fun test => pure (truth test)) run =
              Node.executeAll (fun test => pure (truth test)) run
                (((arms.find? fun arm => truth arm.test).map Arm.body).getD (last?.getD [])) := by
  have hiff (result : Reduced) : apply options .ifStmt position (.node test :: part :: rest) =
      .ok result ↔ _ := apply_eq_ok_iff.trans ifStatement_eq_ok_iff
  constructor
  · constructor
    · rintro ⟨result, hok⟩
      obtain ⟨hgroup, elifs, last?, hpresent, -⟩ := (hiff result).mp hok
      exact ⟨hgroup, elifs, last?, hpresent⟩
    · rintro ⟨hgroup, elifs, last?, hpresent⟩
      exact ⟨_, (hiff _).mpr ⟨hgroup, elifs, last?, hpresent, rfl⟩⟩
  · intro elifs last? hpresent result hok
    obtain ⟨hgroup, -⟩ := (hiff result).mp hok
    cases hok.symm.trans ((hiff _).mpr ⟨hgroup, elifs, last?, hpresent, rfl⟩)
    exact ⟨_, _, rfl, rfl, Node.chain?_nested (_ :: elifs) _,
      fun _ _ _ holds run => Node.execute_nested holds run _ elifs _,
      fun _ _ _ truth run => Node.execute_nested_pure run truth _ elifs _⟩

/-- A condition that is a name. -/
def namedCondition (name : String) : Node :=
  .mk .name [("id", .text name), ("ctx", .usage .read)] .unknown

/-- Behind `if a`, a placeholder, `elif b`, `elif c`, and an `else` with nothing in it. -/
def furtherClauses : List Reduced := [
  .absent,
  .clause (.elif (namedCondition "b") [.mk .breakStmt [] .unknown] ⟨2, 1, 3, 1⟩),
  .clause (.elif (namedCondition "c") [.mk .passStmt [] .unknown] ⟨3, 1, 4, 1⟩),
  .clause (.otherwise [])]

/-- The chain is read back, with `b` at its own position, and where all conditions but `a` hold
it is the block of `b` that is run. -/
theorem apply_ifStmt_eq_ok_iff_further :
    ∃ n elifs,
      present furtherClauses = elifs.map Arm.clause ++ optionalClause .otherwise (some []) ∧
      apply .default .ifStmt .unknown (.node (namedCondition "a") :: .nodes [] :: furtherClauses) =
        .ok (.node n) ∧
      Node.chain? 3 [n] = some (⟨namedCondition "a", [], .unknown⟩ :: elifs, []) ∧
      elifs.map Arm.position = [⟨2, 1, 3, 1⟩, ⟨3, 1, 4, 1⟩] ∧
      ∀ run : Node → StateM (List Node) Unit,
        n.execute (fun test => pure ((test.get? "id").bind Value.text? != some "a")) run =
          Node.executeAll (fun test => pure ((test.get? "id").bind Value.text? != some "a")) run
            [.mk .breakStmt [] .unknown] := by
  obtain ⟨-, hchain⟩ := apply_ifStmt_eq_ok_iff .default .unknown (namedCondition "a") (.nodes [])
    furtherClauses
  obtain ⟨n, arms, hresult, rfl, hread, -, hpure⟩ := hchain
    [⟨namedCondition "b", [.mk .breakStmt [] .unknown], ⟨2, 1, 3, 1⟩⟩,
      ⟨namedCondition "c", [.mk .passStmt [] .unknown], ⟨3, 1, 4, 1⟩⟩] (some []) rfl _ rfl
  exact ⟨n, _, rfl, congrArg Except.ok hresult, hread, rfl, fun run => hpure _ _ run⟩

end TreeLowering
