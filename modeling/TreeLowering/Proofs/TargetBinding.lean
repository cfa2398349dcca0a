/-
# Binding targets

A node can be bound exactly when it is shaped like a target. Binding then changes the usage
at its target positions and nothing else, so that the last usage asked for is the one that
counts; otherwise it reports the first node at these positions that cannot be a target. What
is asked of the node, every node of a lowered tree has.
-/

import TreeLowering.Proofs.Tree.Target
import TreeLowering.Proofs.Wellformedness

namespace TreeLowering

open TreeLowering.Reduced

theorem Node.WellFormed.holdsTargets {n : Node} (h : n.WellFormed) : n.HoldsTargets := by
  obtain ⟨construct, fields, position⟩ := n
  have hschema : (Node.mk construct fields position).FollowsSchema := h.map_fst_eq
  refine ⟨hschema, fun value hvalue => ?_, fun hstarred value hvalue => ?_⟩
  · have hslot : "elts" ∈ construct.slots := Node.mem_slots_of_get? hschema hvalue
    cases h with
    | display _ elements | set elements => cases hvalue; exact ⟨elements, rfl⟩
    | branching kind | forLoop kind | withBlock kind | function kind | optionalValue kind
    | scope kind => rcases kind with rfl | rfl <;> exact absurd hslot (by decide)
    | elementComprehension kind | keywordStmt kind | requiredValue kind =>
        rcases kind with rfl | rfl | rfl <;> exact absurd hslot (by decide)
    | _ => exact absurd hslot (by decide)
  · obtain rfl : construct = .starred := hstarred
    cases h with
    | starred inside => cases hvalue; exact ⟨inside, rfl⟩
    | display kind | branching kind | forLoop kind | withBlock kind | function kind
    | optionalValue kind | scope kind => rcases kind with kind | kind <;> cases kind
    | elementComprehension kind | keywordStmt kind | requiredValue kind =>
        rcases kind with kind | kind | kind <;> cases kind

/-- The nodes of a lowered tree have their elements in lists and their starred values in
nodes. -/
theorem everywhere_holdsTargets_of_reduce {options : Options} {tree : ParseTree}
    {result : Reduced} (h : reduce options tree = .ok result) :
    ∀ n ∈ result.roots, n.Everywhere Node.HoldsTargets :=
  fun n hn m hm => (everywhere_wellFormed_of_reduce h n hn m hm).holdsTargets

/-- A node is bound exactly when it is shaped like a target. The result has the usage at the
target positions of the node and is the same elsewhere, and binding it once more is binding the
node. A failure reports the first node at these positions that is of another construct. -/
theorem bind_targetShaped (usage : Usage) {n : Node} (h : n.Everywhere Node.HoldsTargets) :
    ((∃ m, n.bind usage = .ok m) ↔ n.TargetShaped) ∧
    (∀ m, n.bind usage = .ok m →
      Node.Retargeted usage n m ∧ ∀ next : Usage, m.bind next = n.bind next) ∧
    ∀ e, n.bind usage = .error e → ∃ stray,
      n.targets.find? (fun target => !target.construct.isTarget) = some stray ∧
        e = .unrecognized s!"{usage.place} target" stray.construct.tag := by
  have hsettles : Node.Settles usage n.stray? (n.bind usage) _ := Node.settles_bind h
  rw [Node.targetShaped_iff h]
  cases hstray : n.stray? with
  | none =>
      rw [hstray] at hsettles
      obtain ⟨bound, hbound, hsame⟩ := hsettles
      refine ⟨⟨fun _ => rfl, fun _ => ⟨bound, hbound⟩⟩, fun m hm => ?_, fun e he => ?_⟩
      · cases hbound.symm.trans hm
        exact ⟨hsame, fun next => hsame.bind_eq h⟩
      · cases hbound.symm.trans he
  | some stray =>
      rw [hstray] at hsettles
      have herror : n.bind usage = .error (usage.refusal stray) := hsettles
      refine ⟨⟨fun ⟨m, hm⟩ => ?_, fun hnone => ?_⟩, fun m hm => ?_, fun e he => ?_⟩
      · cases herror.symm.trans hm
      · cases hnone
      · cases herror.symm.trans hm
      · cases herror.symm.trans he
        exact ⟨stray, hstray, rfl⟩

/-- The tree of `(x.a, [*y])`. -/
def nestedTarget : ParseTree :=
  .rule "tuple" [
    .rule "getattr" [.rule "var" [.token ⟨"NAME", "x", .unknown⟩] .unknown,
      .token ⟨"NAME", "a", .unknown⟩] .unknown,
    .rule "list" [.rule "star_expr" [.rule "var" [.token ⟨"NAME", "y", .unknown⟩] .unknown]
      .unknown] .unknown] .unknown

/-- The tree of `(x, [f()])`. -/
def strayTarget : ParseTree :=
  .rule "tuple" [
    .rule "var" [.token ⟨"NAME", "x", .unknown⟩] .unknown,
    .rule "list" [.rule "funccall" [.rule "var" [.token ⟨"NAME", "f", .unknown⟩] .unknown]
      .unknown] .unknown] .unknown

/-- `(x.a, [*y])` is bound to be deleted, again after it was written, and its object `x` is still
read; in `(x, [f()])` the call is reported. -/
theorem bind_targetShaped_nested :
    (∃ n m, reduce .default nestedTarget = .ok (.node n) ∧ n.Everywhere Node.HoldsTargets ∧
      n.TargetShaped ∧ n.bind .write = .ok m ∧ m.bind .delete = n.bind .delete ∧
      m.subtrees.map Node.usage? = [some .write, some .write, some .read, some .write,
        some .write, some .write]) ∧
    ∃ n stray, reduce .default strayTarget = .ok (.node n) ∧
      n.Everywhere Node.HoldsTargets ∧ ¬ n.TargetShaped ∧
      n.targets.find? (fun target => !target.construct.isTarget) = some stray ∧
      stray.construct.tag = "Call" := by
  refine ⟨?_, ?_⟩
  · have hreduce : reduce .default nestedTarget = .ok (.node _) := rfl
    have hholds := everywhere_holdsTargets_of_reduce hreduce _ List.mem_cons_self
    obtain ⟨hshaped, hok, -⟩ := bind_targetShaped .write hholds
    exact ⟨_, _, rfl, hholds, hshaped.mp ⟨_, rfl⟩, rfl, (hok _ rfl).2 .delete, rfl⟩
  · have hreduce : reduce .default strayTarget = .ok (.node _) := rfl
    have hholds := everywhere_holdsTargets_of_reduce hreduce _ List.mem_cons_self
    obtain ⟨hshaped, -, herror⟩ := bind_targetShaped .write hholds
    obtain ⟨stray, hstray, he⟩ := herror _ rfl
    refine ⟨_, stray, rfl, hholds, fun h => ?_, hstray, ?_⟩
    · obtain ⟨m, hm⟩ := hshaped.mpr h
      cases hm
    · exact (Error.unrecognized.inj he).2.symm

end TreeLowering
