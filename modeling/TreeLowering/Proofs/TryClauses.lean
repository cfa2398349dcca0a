/-
# Clauses of a `try` statement

A `try` statement takes its clauses in a fixed order: groups of handlers, an `else` and a
`finally`, each of which may be missing. It is accepted when its parts are in that order
and there are handlers, or a `finally` and no `else`.
-/

import TreeLowering.Proofs.NodeGroups
import TreeLowering.Proofs.Reduction.Places

namespace TreeLowering

open TreeLowering.Lowering TreeLowering.Reduced

variable {item : Reduced} {items done groups : List Reduced}

namespace Lowering.TryClauses

variable {c next : TryClauses}

/-! ## One clause -/

/-- What the next part of a `try` statement adds to its clauses. -/
inductive Adds : TryClauses → Reduced → TryClauses → Prop
  | absent (c : TryClauses) : Adds c .absent c
  | handlers {item : Reduced} (group : item.isGroup) (found : List Node) :
      Adds ⟨found, none, none⟩ item ⟨found ++ item.roots, none, none⟩
  | otherwise (found body : List Node) :
      Adds ⟨found, none, none⟩ (.clause (.otherwise body)) ⟨found, some body, none⟩
  | finish (found : List Node) (otherwise? : Option (List Node)) (body : List Node) :
      Adds ⟨found, otherwise?, none⟩ (.clause (.finish body)) ⟨found, otherwise?, some body⟩

theorem adds_of_add (h : c.add item = .ok next) : Adds c item next := by
  obtain ⟨found, otherwise?, finally?⟩ := c
  cases item with
  | absent =>
      cases h
      exact .absent _
  | clause part =>
      cases part with
      | elif => cases h
      | otherwise body =>
          rw [add] at h
          split at h
          case isTrue hopen =>
            rw [Bool.and_eq_true, Option.isNone_iff_eq_none, Option.isNone_iff_eq_none] at hopen
            obtain ⟨rfl, rfl⟩ := hopen
            cases h
            exact .otherwise found body
          case isFalse => cases h
      | finish body =>
          rw [add] at h
          split at h
          case isTrue hopen =>
            rw [Option.isNone_iff_eq_none] at hopen
            subst hopen
            cases h
            exact .finish found otherwise? body
          case isFalse => cases h
  | node | nodes | fragment =>
      rw [add] at h
      split at h
      case isTrue hopen =>
        rw [Bool.and_eq_true, Option.isNone_iff_eq_none, Option.isNone_iff_eq_none] at hopen
        obtain ⟨rfl, rfl⟩ := hopen
        obtain ⟨nodes, hnodes, h⟩ := exists_of_bind_eq_ok h
        obtain ⟨hgroup, rfl⟩ := (gatherItem_eq_ok_iff_isGroup rfl).mp hnodes
        cases h
        exact .handlers hgroup found
      case isFalse => cases h
  | _ => cases h

theorem add_of_adds (h : Adds c item next) : c.add item = .ok next := by
  cases h with
  | absent | otherwise | finish => rfl
  | handlers hgroup =>
      have hgather := gatherItem_of_isGroup hgroup
      cases item with
      | node | nodes | fragment => rw [add, hgather]; rfl
      | _ => cases hgroup

theorem add_eq_ok_iff : c.add item = .ok next ↔ Adds c item next :=
  ⟨adds_of_add, add_of_adds⟩

/-! ## A run of clauses -/

/-- The parts, without placeholders, are groups whose nodes are the handlers, and then the
other clauses that there are. -/
def Spells (items : List Reduced) (c : TryClauses) : Prop :=
  ∃ groups, present items = groups ++ optionalClause .otherwise c.otherwise? ++
      optionalClause .finish c.finally? ∧
    (∀ group ∈ groups, group.isGroup) ∧ rootsOf groups = c.handlers

theorem Spells.add (h : Spells done c) (hadd : Adds c item next) :
    Spells (done ++ [item]) next := by
  obtain ⟨groups, hpresent, hgroups, hroots⟩ := h
  cases hadd with
  | absent =>
      refine ⟨groups, ?_, hgroups, hroots⟩
      rw [present_append, hpresent]
      exact List.append_nil _
  | handlers hgroup found =>
      refine ⟨groups ++ [item], ?_, ?_, ?_⟩
      · rw [present_append, hpresent, present_singleton_of_isGroup hgroup]
        simp [optionalClause]
      · simpa [or_imp, forall_and] using ⟨hgroups, hgroup⟩
      · simp [hroots]
  | otherwise | finish =>
      refine ⟨groups, ?_, hgroups, hroots⟩
      rw [present_append, hpresent]
      simp [optionalClause, present, isAbsent]

theorem spells_of_foldlM (h : items.foldlM add c = .ok next) (hdone : Spells done c) :
    Spells (done ++ items) next := by
  induction items generalizing done c with
  | nil =>
      cases h
      rwa [List.append_nil]
  | cons item rest ih =>
      obtain ⟨_, hadd, hrest⟩ := exists_of_bind_eq_ok h
      rw [List.append_cons]
      exact ih hrest (hdone.add (add_eq_ok_iff.mp hadd))

theorem foldlM_add_groups (h : ∀ group ∈ groups, group.isGroup) (found : List Node) :
    groups.foldlM add ⟨found, none, none⟩ = .ok ⟨found ++ rootsOf groups, none, none⟩ := by
  induction groups generalizing found with
  | nil => rw [rootsOf, List.append_nil]; rfl
  | cons group rest ih =>
      obtain ⟨hgroup, hrest⟩ := List.forall_mem_cons.mp h
      rw [List.foldlM_cons, add_eq_ok_iff.mpr (.handlers hgroup found), rootsOf,
        ← List.append_assoc]
      exact ih hrest _

/-- The clauses of a `try` statement are read exactly when they are in their order. -/
theorem foldlM_add_eq_ok_iff : items.foldlM add .empty = .ok c ↔ Spells items c := by
  constructor
  · intro h
    have hempty : Spells [] .empty := ⟨[], by simp [empty, optionalClause], by simp, rfl⟩
    exact spells_of_foldlM h hempty
  · rintro ⟨groups, hpresent, hgroups, hroots⟩
    -- without placeholders the fold can be run: over the groups, then over what is left
    have hskip := foldlM_within (fun c => show TryClauses.add c .absent = .ok c from rfl) .empty
    obtain ⟨handlers, otherwise?, finally?⟩ := c
    obtain rfl : rootsOf groups = handlers := hroots
    rw [← eq_present hskip, hpresent, List.append_assoc, List.foldlM_append, empty,
      foldlM_add_groups hgroups]
    cases otherwise? <;> cases finally? <;> rfl

/-! ## The statement -/

theorem check_eq_ok_iff {checked : Unit} : c.check = .ok checked ↔
    (∀ n ∈ c.handlers, n.construct = .exceptHandler) ∧
      (c.handlers ≠ [] ∨ c.finally?.isSome) ∧ (c.otherwise?.isSome → c.handlers ≠ []) := by
  rw [check, ← find?_other_eq_none_iff]
  split
  case h_1 stray hstray =>
    rw [hstray]
    simp
  case h_2 hnone =>
    rw [and_iff_right hnone]
    obtain ⟨handlers, otherwise?, finally?⟩ := c
    cases handlers <;> cases otherwise? <;> cases finally? <;> simp

end Lowering.TryClauses

theorem tryStatement_eq_ok_iff {r : Reduction} {result : Reduced} :
    tryStatement r items = .ok result ↔
      ∃ body rest c, items = body :: rest ∧ body.isGroup ∧ TryClauses.Spells rest c ∧
        c.check = .ok () ∧
        result = .node (.mk .tryStmt [("body", .list body.roots), ("handlers", .list c.handlers),
          ("orelse", .list (c.otherwise?.getD [])), ("finalbody", .list (c.finally?.getD []))]
          r.position) := by
  rw [tryStatement_eq]
  simp only [bind_eq_ok_iff, block_eq_ok_iff, TryClauses.foldlM_add_eq_ok_iff]
  constructor
  · rintro ⟨_, ⟨body, hbody, hgroup, rfl⟩, c, hspells, _, hcheck, hbuild⟩
    rw [r.build_of_slots rfl] at hbuild
    cases hbuild
    cases items with
    | nil => cases hbody
    | cons first rest =>
        cases hbody
        exact ⟨body, rest, c, rfl, hgroup, hspells, hcheck, rfl⟩
  · rintro ⟨body, rest, c, rfl, hgroup, hspells, hcheck, rfl⟩
    exact ⟨_, ⟨body, rfl, hgroup, rfl⟩, c, hspells, (), hcheck, r.build_of_slots rfl⟩

/-- A `try` statement is accepted exactly when it has a block, and its other parts, without
placeholders, are groups of handlers, then at most one `else` and then at most one `finally`,
where there is a handler unless there is a `finally` and no `else`. It has the handlers of all
groups in source order and the blocks of its clauses. -/
theorem apply_tryStmt_eq_ok_iff (options : Options) (position : Position) (items : List Reduced)
    (result : Reduced) :
    apply options .tryStmt position items = .ok result ↔
      ∃ (body : Reduced) (rest groups : List Reduced) (otherwise? finally? : Option (List Node)),
        items = body :: rest ∧ body.isGroup ∧
        present rest =
          groups ++ optionalClause .otherwise otherwise? ++ optionalClause .finish finally? ∧
        (∀ group ∈ groups, group.isGroup ∧ ∀ n ∈ group.roots, n.construct = .exceptHandler) ∧
        (rootsOf groups ≠ [] ∨ finally?.isSome) ∧ (otherwise?.isSome → rootsOf groups ≠ []) ∧
        result = .node (.mk .tryStmt [("body", .list body.roots),
          ("handlers", .list (rootsOf groups)), ("orelse", .list (otherwise?.getD [])),
          ("finalbody", .list (finally?.getD []))] position) := by
  rw [apply_eq_ok_iff]
  show tryStatement _ items = _ ↔ _
  rw [tryStatement_eq_ok_iff]
  simp only [TryClauses.check_eq_ok_iff]
  constructor
  · rintro ⟨body, rest, ⟨_, otherwise?, finally?⟩, rfl, hbody, ⟨groups, hpresent, hgroups, rfl⟩,
      ⟨hkind, hsome, helse⟩, rfl⟩
    refine ⟨body, rest, groups, otherwise?, finally?, rfl, hbody, hpresent, fun group hgroup =>
      ⟨hgroups group hgroup, fun n hn => hkind n (mem_rootsOf.mpr ⟨group, hgroup, hn⟩)⟩, hsome,
      helse, rfl⟩
  · rintro ⟨body, rest, groups, otherwise?, finally?, rfl, hbody, hpresent, hgroups, hsome, helse,
      rfl⟩
    have hkind : ∀ n ∈ rootsOf groups, n.construct = .exceptHandler := by
      intro n hn
      obtain ⟨group, hgroup, hroot⟩ := mem_rootsOf.mp hn
      exact (hgroups group hgroup).2 n hroot
    exact ⟨body, rest, ⟨rootsOf groups, otherwise?, finally?⟩, rfl, hbody,
      ⟨groups, hpresent, fun group hgroup => (hgroups group hgroup).1, rfl⟩,
      ⟨hkind, hsome, helse⟩, rfl⟩

end TreeLowering
