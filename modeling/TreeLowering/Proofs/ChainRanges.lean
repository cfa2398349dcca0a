/-
# Ranges along a chain of attributes

The outermost link of a chain has the range of the reduction, and every other link starts with
the base and ends with its step. A step without a range ends with the reduction, so the ranges
of the links grow along the chain exactly as long as no step with a range of its own stands
behind one without: that step ends before the link inside it does.
-/

import Mathlib.Data.List.Chain
import TreeLowering.Proofs.DottedAccess
import TreeLowering.Proofs.Reduction.Places
import TreeLowering.Proofs.Tree.Range

namespace TreeLowering

open TreeLowering.Lowering TreeLowering.Reduced

variable {r : Reduction} {start position base : Position} {items : List Reduced}
  {steps : List (String × Position)} {ranges : List Position}

/-! ## Links -/

/-- The nodes along a chain of that many links, from the outermost one down to the base. -/
def Node.links : ℕ → Node → List Node
  | 0, n => [n]
  | count + 1, n => n :: match n.get? "value" with
    | some (.node inner) => links count inner
    | _ => []

theorem links_accessNode (count : ℕ) (value : Node) (attr : String) (position : Position) :
    (accessNode value attr position).links (count + 1) =
      accessNode value attr position :: value.links count := rfl

/-- The chain on a node that the steps make, each a name and a range. -/
def linked (r : Reduction) (start : Position) : Node → List (String × Position) → Node
  | chain, [] => chain
  | chain, (attr, step) :: rest =>
    linked r start (accessNode chain attr (linkPosition r start step rest.isEmpty)) rest

/-- The ranges of the links that steps with the given ranges make, from the inside out. -/
def linkRanges (r : Reduction) (start : Position) (ranges : List Position) : List Position :=
  ranges.dropLast.map (fun step => linkPosition r start step false) ++ [r.position]

/-- The steps of a chain are read from left to right, and nothing else can go wrong. -/
theorem attributeLinks_eq_ok_iff {chain whole : Node} :
    attributeLinks r start chain items = .ok whole ↔
      ∃ steps, List.Forall₂ (fun item step => chainStep item = .ok step) items steps ∧
        linked r start chain steps = whole := by
  induction items generalizing chain with
  | nil => simp [attributeLinks, linked]
  | cons item rest ih =>
      have hnext (attr : String) (step : Position) :
          (attributeOf (linkPosition r start step rest.isEmpty) chain attr >>= fun link =>
            attributeLinks r start link rest) =
          attributeLinks r start
            (accessNode chain attr (linkPosition r start step rest.isEmpty)) rest := by
        rw [attributeOf_eq]
        rfl
      rw [attributeLinks, bind_eq_ok_iff]
      constructor
      · rintro ⟨⟨attr, step⟩, hstep, h⟩
        obtain ⟨steps, hsteps, rfl⟩ := ih.mp ((hnext attr step).symm.trans h)
        have hempty : rest.isEmpty = steps.isEmpty := by cases hsteps <;> rfl
        exact ⟨(attr, step) :: steps, .cons hstep hsteps, by rw [linked, hempty]⟩
      · rintro ⟨_, hsteps, rfl⟩
        cases hsteps with
        | @cons _ step _ steps hstep hsteps =>
            have hempty : rest.isEmpty = steps.isEmpty := by cases hsteps <;> rfl
            refine ⟨step, hstep, (hnext _ _).trans (ih.mpr ⟨steps, hsteps, ?_⟩)⟩
            rw [linked, hempty]

/-- The links of a chain stand on the nodes along its base, each in its range. -/
theorem exists_links_linked (r : Reduction) (start : Position) (hsome : steps ≠ []) (count : ℕ)
    (chain : Node) :
    ∃ outer, (linked r start chain steps).links (steps.length + count) =
        outer ++ chain.links count ∧ outer.length = steps.length ∧
      outer.map (·.position) = (linkRanges r start (steps.map (·.2))).reverse := by
  induction steps generalizing count chain with
  | nil => exact absurd rfl hsome
  | cons step rest ih =>
      obtain ⟨attr, range⟩ := step
      let link := accessNode chain attr (linkPosition r start range rest.isEmpty)
      cases rest with
      | nil =>
          refine ⟨[link], ?_, rfl, rfl⟩
          rw [List.length_singleton, Nat.add_comm, linked, linked, links_accessNode]
          rfl
      | cons next others =>
          obtain ⟨outer, houter, hlength, hranges⟩ := ih (List.cons_ne_nil _ _) (count + 1) link
          refine ⟨outer ++ [link], ?_, by simp [hlength], ?_⟩
          · rw [List.length_cons, Nat.add_assoc, Nat.add_comm 1 count, linked, houter,
              links_accessNode, List.append_assoc, List.singleton_append]
          · rw [List.map_append, hranges]
            simp only [linkRanges, List.map_cons, List.dropLast_cons_cons, List.cons_append,
              List.reverse_cons]
            rfl

theorem linked_position (hsome : steps ≠ []) (chain : Node) :
    (linked r start chain steps).position = r.position := by
  induction steps generalizing chain with
  | nil => exact absurd rfl hsome
  | cons step rest ih =>
      cases rest with
      | nil => rfl
      | cons next others => exact ih (List.cons_ne_nil _ _) _

/-! ## The order of the ranges -/

/-- A link that is not the last one ends with its step, if that has a range. -/
theorem linkPosition_of_ne_unknown (h : position ≠ .unknown) :
    linkPosition r start position false = start.span position := by
  simp [linkPosition, h]

/-- The base and the steps that have a range lie within the range of the reduction, in source
order. Steps without a range may stand anywhere between them. -/
structure StepsInOrder (whole base : Position) (ranges : List Position) : Prop where
  base_in : whole.Covers base
  base_forward : base.start ≤ base.stop
  base_first : ∀ step ∈ ranges, step ≠ .unknown → base.stop ≤ step.start
  steps_in : ∀ step ∈ ranges, step ≠ .unknown → whole.Covers step ∧ step.start ≤ step.stop
  ordered : ranges.Pairwise fun first later =>
    first ≠ .unknown → later ≠ .unknown → first.stop ≤ later.start

/-- A step with a range that directly follows one without must end where the reduction ends. -/
def EndsWithWhole (whole first second : Position) : Prop :=
  first = .unknown → second ≠ .unknown → whole.stop ≤ second.stop

instance (whole first second : Position) : Decidable (EndsWithWhole whole first second) :=
  inferInstanceAs (Decidable (_ → _))

namespace StepsInOrder

variable (h : StepsInOrder r.position base ranges)

include h

theorem link_in {step : Position} (hstep : step ∈ ranges) :
    r.position.Covers (linkPosition r base step false) := by
  by_cases hknown : step = .unknown
  · subst hknown
    exact h.base_in.span (.refl _)
  · rw [linkPosition_of_ne_unknown hknown]
    exact h.base_in.span (h.steps_in step hstep hknown).1

theorem link_covers_base {step : Position} (hstep : step ∈ ranges) :
    (linkPosition r base step false).Covers base := by
  by_cases hknown : step = .unknown
  · subst hknown
    exact ⟨le_rfl, h.base_in.2⟩
  · rw [linkPosition_of_ne_unknown hknown]
    exact ⟨le_rfl, (h.base_first step hstep hknown).trans (h.steps_in step hstep hknown).2⟩

/-- Of two steps the link for the later one contains that for the first, unless the later one
has a range and the first one has none. -/
theorem pairwise_covers_iff : ranges.Pairwise fun first later =>
    ((linkPosition r base later false).Covers (linkPosition r base first false) ↔
      EndsWithWhole r.position first later) := by
  refine h.ordered.imp_of_mem fun {first later} hfirst hlater hbefore => ?_
  by_cases hknown : later = .unknown
  · subst hknown
    have hwhole : linkPosition r base .unknown false = base.span r.position := rfl
    have hcovers : (linkPosition r base .unknown false).Covers
        (linkPosition r base first false) := by
      rw [hwhole]
      exact ⟨le_rfl, (h.link_in hfirst).2⟩
    simp [hcovers, EndsWithWhole]
  · rw [linkPosition_of_ne_unknown hknown]
    by_cases hunknown : first = .unknown
    · subst hunknown
      constructor
      · intro hcovers _ _
        exact hcovers.2
      · intro hends
        exact ⟨le_rfl, hends rfl hknown⟩
    · have hstop : first.stop ≤ later.stop :=
        (hbefore hunknown hknown).trans (h.steps_in later hlater hknown).2
      rw [linkPosition_of_ne_unknown hunknown]
      exact iff_of_true ⟨le_rfl, hstop⟩ fun heq => absurd heq hunknown

end StepsInOrder

/-- Neighbours are related alike by two relations that agree on all pairs of a list. -/
theorem isChain_congr_of_pairwise {α : Type} {related other : α → α → Prop} {l : List α}
    (h : l.Pairwise fun a b => related a b ↔ other a b) : l.IsChain related ↔ l.IsChain other := by
  induction l with
  | nil => simp
  | cons a rest ih =>
      obtain ⟨hfirst, hrest⟩ := List.pairwise_cons.mp h
      cases rest with
      | nil => simp
      | cons b others =>
          rw [List.isChain_cons_cons, List.isChain_cons_cons, ih hrest,
            hfirst b List.mem_cons_self]

/-- The ranges of the links grow along a chain when no step but the last has a range that the
step directly before it lacks, unless it ends where the reduction ends. -/
theorem isChain_linkRanges_iff (h : StepsInOrder r.position base ranges) :
    (base :: linkRanges r base ranges).IsChain (fun inner outer => outer.Covers inner) ↔
      ranges.dropLast.IsChain (EndsWithWhole r.position) := by
  have hmem : ∀ step ∈ ranges.dropLast, step ∈ ranges :=
    fun _ hstep => (List.dropLast_sublist ranges).subset hstep
  have hinner := isChain_congr_of_pairwise
    (h.pairwise_covers_iff.sublist (List.dropLast_sublist ranges))
  rw [linkRanges, List.isChain_cons, List.isChain_append, List.isChain_map, hinner]
  constructor
  · exact fun hchain => hchain.2.1
  · refine fun hchain => ⟨fun link hlink => ?_, hchain, List.isChain_singleton _, ?_⟩
    · rcases List.mem_append.mp (List.mem_of_mem_head? hlink) with hmapped | hlast
      · obtain ⟨step, hstep, rfl⟩ := List.mem_map.mp hmapped
        exact h.link_covers_base (hmem step hstep)
      · obtain rfl := List.mem_singleton.mp hlast
        exact h.base_in
    · intro link hlink whole hwhole
      obtain ⟨step, hstep, rfl⟩ := List.mem_map.mp (List.mem_of_mem_getLast? hlink)
      obtain rfl : r.position = whole := by simpa using hwhole
      exact h.link_in (hmem step hstep)

theorem isChain_links_linked_iff (hsome : steps ≠ []) {chain : Node}
    (h : StepsInOrder r.position chain.position (steps.map (·.2))) :
    ((linked r chain.position chain steps).links steps.length).IsChain
        (fun outer inner => outer.position.Covers inner.position) ↔
      (steps.map (·.2)).dropLast.IsChain (EndsWithWhole r.position) := by
  obtain ⟨outer, houter, -, hranges⟩ := exists_links_linked r chain.position hsome 0 chain
  have hmap : ((linked r chain.position chain steps).links steps.length).map Node.position =
      (chain.position :: linkRanges r chain.position (steps.map (·.2))).reverse := by
    rw [← Nat.add_zero steps.length, houter, List.map_append, hranges, List.reverse_cons]
    rfl
  have hpositions (nodes : List Node) : (nodes.map Node.position).IsChain Position.Covers ↔
      nodes.IsChain fun outer inner => outer.position.Covers inner.position :=
    List.isChain_map _
  rw [← isChain_linkRanges_iff h, ← hpositions, hmap, List.isChain_reverse]

/-! ## The statement -/

/-- A chain that is accepted has a link for each of its steps and the base inside them, and its
outermost link has the range of the reduction. With base and steps in source order within that
range, each link contains the link inside it exactly when, of the steps before the last, none
that has a range comes directly behind one that has none, unless it ends with the reduction. -/
theorem covers_links_of_apply_attrChain (options : Options) (position : Position)
    {items : List Reduced} {result : Reduced}
    (h : apply options .attrChain position items = .ok result) :
    ∃ base rest steps chain, items = .node base :: rest ∧ result = .node chain ∧
      List.Forall₂ (fun item step => chainStep item = .ok step) rest steps ∧
      chain.position = position ∧
      (∃ outer, chain.links steps.length = outer ++ [base] ∧ outer.length = steps.length) ∧
      (StepsInOrder position base.position (steps.map (·.2)) →
        ((chain.links steps.length).IsChain
            (fun outer inner => outer.position.Covers inner.position) ↔
          (steps.map (·.2)).dropLast.IsChain (EndsWithWhole position))) := by
  rw [apply_eq_ok_iff, handlerOf, attributeChain_eq] at h
  obtain ⟨base, hbase, h⟩ := exists_of_bind_eq_ok h
  obtain ⟨rest, rfl⟩ : ∃ rest, items = .node base :: rest := by
    cases items with
    | nil => cases hbase
    | cons first rest =>
        cases (expectNode_present _ _).of_ok hbase
        exact ⟨rest, rfl⟩
  split at h
  case isTrue => cases h
  case isFalse hnonempty =>
    obtain ⟨chain, hlinks, rfl⟩ := exists_of_map_eq_ok h
    obtain ⟨steps, hsteps, rfl⟩ := attributeLinks_eq_ok_iff.mp hlinks
    have hsome : steps ≠ [] := by
      rintro rfl
      cases hsteps
      exact hnonempty rfl
    obtain ⟨outer, houter, hlength, -⟩ := exists_links_linked _ base.position hsome 0 base
    exact ⟨base, rest, steps, _, rfl, rfl, hsteps, linked_position hsome base,
      ⟨outer, houter, hlength⟩, fun horder => isChain_links_linked_iff hsome horder⟩

/-- The parts of `a.b.c.d`, where the token of `c` has no range. -/
def gapBeforeLast : List Reduced :=
  [.node (nameNode "a" ⟨1, 1, 1, 2⟩), .token ⟨"NAME", "b", ⟨1, 3, 1, 4⟩⟩,
    .token ⟨"NAME", "c", .unknown⟩, .token ⟨"NAME", "d", ⟨1, 7, 1, 8⟩⟩]

/-- The last of the steps may have a range that the one before it lacks. -/
theorem covers_links_of_apply_attrChain_gap :
    ∃ chain, apply .default .attrChain ⟨1, 1, 1, 8⟩ gapBeforeLast = .ok (.node chain) ∧
      (chain.links 3).IsChain fun outer inner => outer.position.Covers inner.position := by
  obtain ⟨result, haccepted⟩ :
      ∃ result, apply .default .attrChain ⟨1, 1, 1, 8⟩ gapBeforeLast = .ok result := ⟨_, rfl⟩
  obtain ⟨base, rest, steps, chain, hitems, rfl, hsteps, -, -, hordered⟩ :=
    covers_links_of_apply_attrChain .default ⟨1, 1, 1, 8⟩ haccepted
  cases hitems
  obtain rfl : steps = [("b", ⟨1, 3, 1, 4⟩), ("c", .unknown), ("d", ⟨1, 7, 1, 8⟩)] := by
    cases hsteps with
    | cons hb hsteps =>
        cases hsteps with
        | cons hc hsteps =>
            cases hsteps with
            | cons hd hsteps =>
                cases hb
                cases hc
                cases hd
                cases hsteps
                rfl
  exact ⟨chain, haccepted,
    (hordered ⟨by decide, by decide, by decide, by decide, by decide⟩).mpr (by decide)⟩

/-- The parts of `a.b.c.d`, where the token of `b` has no range. -/
def gapBeforeMiddle : List Reduced :=
  [.node (nameNode "a" ⟨1, 1, 1, 2⟩), .token ⟨"NAME", "b", .unknown⟩,
    .token ⟨"NAME", "c", ⟨1, 5, 1, 6⟩⟩, .token ⟨"NAME", "d", ⟨1, 7, 1, 8⟩⟩]

/-- The link `a.b` reaches to the end of the reduction and the link `a.b.c` around it only to
the end of its own step. -/
theorem attrChain_link_leaves_its_outer_link :
    StepsInOrder ⟨1, 1, 1, 8⟩ ⟨1, 1, 1, 2⟩ [.unknown, ⟨1, 5, 1, 6⟩, ⟨1, 7, 1, 8⟩] ∧
    ∃ chain, apply .default .attrChain ⟨1, 1, 1, 8⟩ gapBeforeMiddle = .ok (.node chain) ∧
      (chain.links 3).map Node.position =
        [⟨1, 1, 1, 8⟩, ⟨1, 1, 1, 6⟩, ⟨1, 1, 1, 8⟩, ⟨1, 1, 1, 2⟩] ∧
      ¬ (chain.links 3).IsChain fun outer inner => outer.position.Covers inner.position :=
  ⟨⟨by decide, by decide, by decide, by decide, by decide⟩, _, rfl, rfl, by decide⟩

end TreeLowering
