/-
# Parameter lists

Every piece of a parameter list adds its nodes to the signature, and no node is ever
taken out again: a slash moves parameters, a star and a double star fill a place that
was empty. So the nodes of a signature are, in some order, those of the pieces.
-/

import Mathlib.Algebra.Order.Group.Multiset
import Mathlib.Tactic.Abel
import TreeLowering.Proofs.Reduction.Places
import TreeLowering.Proofs.Reduction.Rules

namespace TreeLowering.Lowering

open TreeLowering.Reduced

theorem checkParameter_yields (n : Node) :
    Yields (checkParameter n) fun _ => n.construct = .parameter := by
  rw [checkParameter]
  split
  · exact .ok ‹_›
  · exact .error trivial

namespace Signature

variable {s : Signature} {done : List Node}

theorem empty_collects : empty.Collects [] where
  parameter := by simp [parameters, empty]
  paired := rfl
  fitting := Nat.le_refl _
  placed := .refl _

/-- The nodes of a signature, without regard to their order. -/
theorem coe_childrenOf_fields (s : Signature) :
    (childrenOf s.fields : Multiset Node) =
      s.positionalOnly + s.positional + s.star?.join.toList + s.keywordOnly +
        s.keywordDefaults.filterMap id + s.mapping?.toList + s.defaults := by
  simp [fields, ← Multiset.coe_add, add_assoc]

/-- What is added to the fields is added to what they collect. -/
theorem Collects.placed_append (h : s.Collects done) {next : Signature} {new : List Node}
    (hnext : (childrenOf next.fields : Multiset Node) = childrenOf s.fields + new) :
    (childrenOf next.fields).Perm (done ++ new) := by
  rw [Multiset.coe_add, Multiset.coe_eq_coe] at hnext
  exact hnext.trans (h.placed.append_right new)

/-! ## Single pieces -/

theorem addPlain_yields (h : s.Collects done) (p : Node) (default? : Option Node) :
    Yields (s.addPlain p default?) fun next =>
      next.Collects (done ++ ([p] ++ default?.toList)) := by
  have hfitting := h.fitting
  rw [addPlain.eq_def]
  apply Yields.bind (checkParameter_yields p)
  intro _ hp
  have hparameters : ∀ n, n = p ∨ n ∈ s.parameters → n.construct = .parameter := by
    rintro n (rfl | hn)
    · exact hp
    · exact h.parameter n hn
  split
  case isTrue =>
    refine .ok ⟨fun n hn => hparameters n ?_, ?_, hfitting, h.placed_append ?_⟩
    · simp only [parameters, List.mem_append, List.mem_singleton] at hn ⊢
      tauto
    · simp [h.paired]
    · have hslot : [default?].filterMap id = default?.toList := by cases default? <;> rfl
      simp only [coe_childrenOf_fields, List.filterMap_append, hslot, ← Multiset.coe_add]
      abel
  case isFalse =>
    cases default? with
    | some value =>
        refine .ok ⟨fun n hn => hparameters n ?_, h.paired, ?_, h.placed_append ?_⟩
        · simp only [parameters, List.mem_append, List.mem_singleton] at hn ⊢
          tauto
        · simp only [List.length_append, List.length_singleton]
          omega
        · simp only [coe_childrenOf_fields, Option.toList_some, ← Multiset.coe_add]
          abel
    | none =>
        dsimp only
        split
        case isTrue =>
          refine .ok ⟨fun n hn => hparameters n ?_, h.paired, ?_, h.placed_append ?_⟩
          · simp only [parameters, List.mem_append, List.mem_singleton] at hn ⊢
            tauto
          · simp only [List.length_append, List.length_singleton]
            omega
          · simp only [coe_childrenOf_fields, Option.toList_none, List.append_nil,
              ← Multiset.coe_add]
            abel
        case isFalse => exact .error trivial

theorem addAll_yields (h : s.Collects done) (nodes : List Node) :
    Yields (s.addAll nodes) fun next => next.Collects (done ++ nodes) := by
  have hstep : ∀ seen p (s : Signature), s.Collects (done ++ seen) →
      Yields (s.addPlain p none) fun next => next.Collects (done ++ (seen ++ [p])) := by
    intro seen p s hs
    exact (addPlain_yields hs p none).mono fun next hnext => by simpa using hnext
  exact Yields.foldlM (motive := fun seen (s : Signature) => s.Collects (done ++ seen)) hstep
    (by simpa using h) nodes

/-- A slash moves all positional parameters, when none has been moved before. -/
theorem addSlash_yields (h : s.Collects done) :
    Yields s.addSlash fun next => next.Collects done := by
  rw [addSlash]
  split
  case isTrue => exact .error trivial
  case isFalse hplace =>
    have hnone : s.positionalOnly = [] := by
      by_contra hsome
      simp [hsome] at hplace
    have hfitting := h.fitting
    refine .ok ⟨fun n hn => h.parameter n ?_, h.paired, ?_, ?_⟩
    · simpa [parameters, hnone] using hn
    · simp only [hnone, List.length_nil] at hfitting ⊢
      omega
    · simpa [fields, hnone] using h.placed

theorem addStar_yields (h : s.Collects done) (p? : Option Node) :
    Yields (s.addStar p?) fun next => next.Collects (done ++ p?.toList) := by
  rw [addStar.eq_def]
  split
  case isTrue => exact .error trivial
  case isFalse hnone =>
    rw [Option.not_isSome_iff_eq_none] at hnone
    cases p? with
    | some p =>
        apply Yields.bind (checkParameter_yields p)
        intro _ hp
        refine .ok ⟨fun n hn => ?_, h.paired, h.fitting, h.placed_append ?_⟩
        · have hmem : n = p ∨ n ∈ s.parameters := by
            simp only [parameters, hnone, List.mem_append, Option.join_some, Option.join_none,
              Option.mem_toList, Option.some.injEq, reduceCtorEq, or_false] at hn ⊢
            tauto
          rcases hmem with rfl | hold
          · exact hp
          · exact h.parameter n hold
        · simp only [coe_childrenOf_fields, hnone, Option.join_some, Option.join_none,
            Option.toList_none, Multiset.coe_nil, add_zero]
          abel
    | none =>
        refine .ok ⟨fun n hn => h.parameter n ?_, h.paired, h.fitting, ?_⟩
        · simpa [parameters, hnone] using hn
        · simpa [fields, hnone] using h.placed

theorem addMapping_yields (h : s.Collects done) (hnone : s.mapping? = none) (p : Node) :
    Yields (s.addMapping p) fun next => next.Collects (done ++ [p]) := by
  rw [addMapping]
  apply Yields.bind (checkParameter_yields p)
  intro _ hp
  refine .ok ⟨fun n hn => ?_, h.paired, h.fitting, h.placed_append ?_⟩
  · have hmem : n = p ∨ n ∈ s.parameters := by
      simp only [parameters, hnone, List.mem_append, Option.mem_toList, Option.some.injEq,
        reduceCtorEq, or_false] at hn ⊢
      tauto
    rcases hmem with rfl | hold
    · exact hp
    · exact h.parameter n hold
  · simp only [coe_childrenOf_fields, hnone, Option.toList_none, Option.toList_some,
      Multiset.coe_nil, add_zero]
    abel

/-! ## All pieces -/

theorem addPieces_cons (s : Signature) (piece : Reduced) (rest : List Reduced) :
    s.addPieces (piece :: rest) = s.add piece >>= fun next => next.addPieces rest := by
  rw [addPieces]
  cases s.add piece <;> rfl

mutual

/-- The next piece adds its nodes. Nothing is added behind a double star, so its place is
empty whenever it is filled. -/
theorem add_yields {s : Signature} {done : List Node} (h : s.Collects done) (item : Reduced) :
    Yields (s.add item) fun next => next.Collects (done ++ item.roots) := by
  cases item with
  | token | absent => exact .ok (by simpa using h)
  | fragment _ children _ =>
      rw [add]
      split
      · exact .error trivial
      · exact addPieces_yields h children
  | node n =>
      rw [add]
      split
      · exact .error trivial
      · exact (addPlain_yields h n none).mono fun _ hnext => by simpa using hnext
  | nodes ns =>
      rw [add]
      split
      · exact .error trivial
      · exact addAll_yields h ns
  | parameter piece =>
      cases piece with
      | plain p default? =>
          rw [add]
          split
          · exact .error trivial
          · exact addPlain_yields h p default?
      | star p? =>
          rw [add]
          split
          · exact .error trivial
          · exact addStar_yields h p?
      | mapping p =>
          rw [add]
          split
          case isTrue => exact .error trivial
          case isFalse hnone =>
            exact addMapping_yields h (Option.not_isSome_iff_eq_none.mp hnone) p
      | slash =>
          rw [add]
          split
          · exact .error trivial
          · exact (addSlash_yields h).mono fun _ hnext => by simpa [Parameter.roots] using hnext
  | operator | pair | unpack | dotted | level | clause =>
      simp only [add]
      split <;> exact .error trivial

theorem addPieces_yields {s : Signature} {done : List Node} (h : s.Collects done)
    (pieces : List Reduced) :
    Yields (s.addPieces pieces) fun next => next.Collects (done ++ rootsOf pieces) := by
  cases pieces with
  | nil => exact .ok (by simpa using h)
  | cons piece rest =>
      have hfirst := add_yields h piece
      rw [addPieces]
      cases hf : s.add piece with
      | error e => exact hfirst.of_error hf
      | ok next =>
          have hrest := addPieces_yields (hfirst.of_ok hf) rest
          exact hrest.mono fun last hlast => by simpa using hlast

end

theorem ofPieces_yields (pieces : List Reduced) :
    Yields (ofPieces pieces) fun s => s.Collects (rootsOf pieces) :=
  addPieces_yields empty_collects pieces

theorem build_yields (s : Signature) (position : Position) :
    Yields (s.build position) fun n => n = .mk .arguments s.fields position := by
  rw [build]
  split
  · exact .error trivial
  · rw [Node.build_of_slots rfl]
    exact .ok rfl

end Signature

/-! ## Handlers -/

variable {r : Reduction} {items : List Reduced}

theorem plainParameter_yields : Yields (plainParameter r items) (Reduces r items) := by
  rw [plainParameter_eq]
  apply Yields.bind (identifier_yields _ _)
  intro arg harg
  apply Yields.bind (optionalNode_yields _ _)
  intro hint hhint
  apply Yields.bind (noMore_yields _)
  intro _ hrest
  have hgiven := rootsOf_first rfl (rootsOf_drop hhint (rootsOf_end hrest))
  rw [List.append_nil] at hgiven
  rw [r.build_of_slots rfl]
  exact .ok (.built (.parameter arg harg hgiven))

theorem defaultParameter_yields : Yields (defaultParameter r items) (Reduces r items) := by
  rw [defaultParameter_eq]
  apply Yields.bind (expectNode_yields _ _)
  intro parameter hparameter
  apply Yields.bind (expectNode_yields _ _)
  intro value hvalue
  apply Yields.bind (noMore_yields _)
  intro _ hrest
  have hgiven := rootsOf_first hparameter (rootsOf_drop hvalue (rootsOf_end hrest))
  exact .ok (.passed (.parameter _) hgiven.symm)

theorem starParameter_yields : Yields (starParameter r items) (Reduces r items) := by
  rw [starParameter_eq]
  apply Yields.bind (optionalNode_yields _ _)
  intro parameter hparameter
  apply Yields.bind (noMore_yields _)
  intro _ hrest
  have hgiven := rootsOf_first hparameter (rootsOf_end hrest)
  rw [List.append_nil] at hgiven
  exact .ok (.passed (.parameter _) hgiven.symm)

theorem mappingParameter_yields : Yields (mappingParameter r items) (Reduces r items) := by
  rw [mappingParameter_eq]
  apply Yields.bind (expectNode_yields _ _)
  intro parameter hparameter
  apply Yields.bind (noMore_yields _)
  intro _ hrest
  have hgiven := rootsOf_first hparameter (rootsOf_end hrest)
  exact .ok (.passed (.parameter _) hgiven.symm)

/-- A slash drops its parts, whatever they are. -/
theorem slash_yields (hrule : r.rule = .slash) : Yields (slash r items) (Reduces r items) :=
  .ok (.barren (.parameter _) rfl (.inl hrule))

theorem parameterList_yields : Yields (parameterList r items) (Reduces r items) := by
  rw [parameterList]
  apply Yields.bind (Signature.ofPieces_yields items)
  intro s hs
  apply (s.build_yields _).map
  intro n hn
  subst hn
  exact .built (.arguments hs)

theorem signatureNode_yields (position : Position) (item : Option Reduced) :
    Yields (signatureNode position item) (Signs position (rootsOf item.toList)) := by
  have hpieces : ∀ piece : Reduced,
      Yields (do (← Signature.ofPieces [piece]).build position)
        (Signs position (rootsOf (some piece).toList)) := by
    intro piece
    apply Yields.bind (Signature.ofPieces_yields [piece])
    intro s hs
    apply (s.build_yields position).mono
    intro n hn
    subst hn
    exact .collected hs
  have hempty : Yields (Signature.empty.build position) (Signs position []) := by
    apply (Signature.empty.build_yields position).mono
    intro n hn
    subst hn
    exact .collected Signature.empty_collects
  rw [signatureNode.eq_def]
  split
  · exact hempty
  · exact hempty
  · split
    case isTrue hkind => exact .ok (.finished hkind)
    case isFalse => exact hpieces _
  · exact hpieces _
  · exact hpieces _
  · exact .error trivial

end TreeLowering.Lowering
