/-
# Targets

What a target looks like, and what becomes of it when it is bound. A target shares its
usage with the elements of a display and with the value of a starred expression. These are
its target positions: binding looks at them in source order, from a node to those inside
it, and changes nothing but the usage there.
-/

import TreeLowering.Proofs.Tree.Usage

namespace TreeLowering

/-- Whether nodes of a construct can be targets. -/
def Construct.isTarget : Construct → Bool
  | .name | .attribute | .subscript | .list | .tuple | .starred => true
  | _ => false

/-- The constructs that can be targets are those with a usage. -/
theorem Construct.hasSlot_ctx_eq (construct : Construct) :
    construct.hasSlot "ctx" = construct.isTarget := by
  have htargets : ∀ construct ∈ all, construct.hasSlot "ctx" = construct.isTarget := by decide
  exact htargets construct construct.mem_all

/-- The report of a node that cannot be a target in the place of one. -/
def Usage.refusal (usage : Usage) (n : Node) : Error :=
  .unrecognized s!"{usage.place} target" n.construct.tag

namespace Node

/-! ## Positions -/

/-- The nodes that share the usage of a node. -/
def inner (n : Node) : List Node :=
  match n.construct.sharedSlot? with
  | some slot => ((n.get? slot).map Value.children).getD []
  | none => []

theorem mem_children_of_mem_inner {n child : Node} (h : child ∈ n.inner) :
    child ∈ n.children := by
  rw [inner] at h
  split at h
  case h_2 => cases h
  case h_1 slot _ =>
    cases hvalue : n.get? slot with
    | none => rw [hvalue] at h; cases h
    | some value =>
        rw [hvalue] at h
        obtain ⟨before, after, hfields, -⟩ := List.lookup_eq_some_iff.mp hvalue
        exact mem_childrenOf.mpr ⟨slot, value, by simp [hfields], h⟩

/-- The target positions of a node: itself, and then those of the nodes that share its
usage, in source order. -/
def targets (n : Node) : List Node :=
  n :: n.inner.attach.flatMap fun child => child.1.targets
termination_by sizeOf n
decreasing_by exact sizeOf_lt_of_mem_children (mem_children_of_mem_inner child.2)

theorem targets_eq (n : Node) : n.targets = n :: n.inner.flatMap targets := by
  rw [targets, List.flatMap_subtype (g := targets) fun _ _ => rfl, List.unattach_attach]

/-- The first node at a target position that cannot be a target. -/
def stray? (n : Node) : Option Node :=
  n.targets.find? fun target => !target.construct.isTarget

theorem stray?_eq (n : Node) :
    n.stray? = if n.construct.isTarget then n.inner.findSome? stray? else some n := by
  rw [stray?, targets_eq, List.find?_cons, List.find?_flatMap]
  cases n.construct.isTarget <;> rfl

/-! ## Shapes -/

/-- The slots of a node are those of the catalogue, its elements are a list, and the value
of a starred expression is a node. -/
structure HoldsTargets (n : Node) : Prop where
  followsSchema : n.FollowsSchema
  elements : ∀ value, n.get? "elts" = some value → ∃ elements, value = .list elements
  starred : n.construct = .starred → ∀ value, n.get? "value" = some value →
    ∃ inside, value = .node inside

/-- A name, an attribute or a subscript, a list or tuple of targets, or a starred target. -/
inductive TargetShaped : Node → Prop
  | plain {n : Node} (kind : n.construct = .name ∨ n.construct = .attribute ∨
      n.construct = .subscript) : TargetShaped n
  | display {n : Node} {elements : List Node} (kind : n.construct = .list ∨ n.construct = .tuple)
      (held : n.get? "elts" = some (.list elements))
      (inside : ∀ element ∈ elements, TargetShaped element) : TargetShaped n
  | starred {n value : Node} (kind : n.construct = .starred)
      (held : n.get? "value" = some (.node value)) (inside : TargetShaped value) : TargetShaped n

/-- The first node is a target, and the second is the same with the given usage at each of
the target positions. -/
inductive Retargeted (usage : Usage) : Node → Node → Prop
  | plain {construct : Construct} (kind : construct = .name ∨ construct = .attribute ∨
      construct = .subscript) (others : List (String × Value)) (old : Value)
      (position : Position) :
      Retargeted usage (.mk construct (others ++ [("ctx", old)]) position)
        (.mk construct (others ++ [("ctx", .usage usage)]) position)
  | display {construct : Construct} (kind : construct = .list ∨ construct = .tuple)
      {elements bound : List Node} (old : Value) (position : Position)
      (inside : List.Forall₂ (Retargeted usage) elements bound) :
      Retargeted usage (.mk construct [("elts", .list elements), ("ctx", old)] position)
        (.mk construct [("elts", .list bound), ("ctx", .usage usage)] position)
  | starred {value bound : Node} (old : Value) (position : Position)
      (inside : Retargeted usage value bound) :
      Retargeted usage (.mk .starred [("value", .node value), ("ctx", old)] position)
        (.mk .starred [("value", .node bound), ("ctx", .usage usage)] position)

/-- One layer of a target, by the way in which it shares its usage. -/
inductive TargetLayer : Node → Prop
  | plain {construct : Construct} (kind : construct = .name ∨ construct = .attribute ∨
      construct = .subscript) {others : List (String × Value)}
      (named : others.map (·.1) ++ ["ctx"] = construct.slots) (old : Value)
      (position : Position) : TargetLayer (.mk construct (others ++ [("ctx", old)]) position)
  | display {construct : Construct} (kind : construct = .list ∨ construct = .tuple)
      (elements : List Node) (old : Value) (position : Position) :
      TargetLayer (.mk construct [("elts", .list elements), ("ctx", old)] position)
  | starred (value : Node) (old : Value) (position : Position) :
      TargetLayer (.mk .starred [("value", .node value), ("ctx", old)] position)

/-- Fields that are named so are those before the last one and the last one. -/
theorem exists_of_map_fst_eq_concat {fields : List (String × Value)} (names : List String)
    {slot : String} (h : fields.map (·.1) = names ++ [slot]) :
    ∃ others last, fields = others ++ [(slot, last)] ∧ others.map (·.1) = names := by
  obtain ⟨others, rest, rfl, hothers, hrest⟩ := List.map_eq_append_iff.mp h
  obtain ⟨⟨name, last⟩, rfl, rfl⟩ := List.map_eq_singleton_iff.mp hrest
  exact ⟨others, last, rfl, hothers⟩

theorem HoldsTargets.layer {n : Node} (h : n.HoldsTargets) (hkind : n.construct.isTarget) :
    TargetLayer n := by
  obtain ⟨construct, fields, position⟩ := n
  have hnames : fields.map (·.1) = construct.slots := h.followsSchema
  have hplain : construct = .name ∨ construct = .attribute ∨ construct = .subscript →
      TargetLayer (.mk construct fields position) := by
    intro kind
    obtain ⟨names, hslots⟩ : ∃ names, construct.slots = names ++ ["ctx"] := by
      rcases kind with rfl | rfl | rfl
      · exact ⟨["id"], rfl⟩
      · exact ⟨["value", "attr"], rfl⟩
      · exact ⟨["value", "slice"], rfl⟩
    obtain ⟨others, old, rfl, hothers⟩ := exists_of_map_fst_eq_concat names (hnames.trans hslots)
    exact .plain kind (by rw [hothers, hslots]) old position
  have hdisplay : construct = .list ∨ construct = .tuple →
      TargetLayer (.mk construct fields position) := by
    intro kind
    have hslots : construct.slots = ["elts"] ++ ["ctx"] := by rcases kind with rfl | rfl <;> rfl
    obtain ⟨others, old, rfl, hothers⟩ := exists_of_map_fst_eq_concat _ (hnames.trans hslots)
    obtain ⟨⟨_, value⟩, rfl, rfl⟩ := List.map_eq_singleton_iff.mp hothers
    obtain ⟨elements, rfl⟩ := h.elements value rfl
    exact .display kind elements old position
  cases construct with
  | name | «attribute» | subscript => exact hplain (by simp)
  | list | tuple => exact hdisplay (by simp)
  | starred =>
      obtain ⟨others, old, rfl, hothers⟩ := exists_of_map_fst_eq_concat ["value"] hnames
      obtain ⟨⟨_, value⟩, rfl, rfl⟩ := List.map_eq_singleton_iff.mp hothers
      obtain ⟨inside, rfl⟩ := h.starred rfl value rfl
      exact .starred inside old position
  | _ => cases hkind

theorem inner_plain {construct : Construct} (kind : construct = .name ∨ construct = .attribute ∨
    construct = .subscript) (fields : List (String × Value)) (position : Position) :
    (mk construct fields position).inner = [] := by
  rcases kind with rfl | rfl | rfl <;> rfl

theorem inner_display {construct : Construct} (kind : construct = .list ∨ construct = .tuple)
    (elements : List Node) (old : Value) (position : Position) :
    (mk construct [("elts", .list elements), ("ctx", old)] position).inner = elements := by
  rcases kind with rfl | rfl <;> rfl

theorem inner_starred (value : Node) (old : Value) (position : Position) :
    (mk .starred [("value", .node value), ("ctx", old)] position).inner = [value] := rfl

theorem TargetShaped.isTarget {n : Node} (h : n.TargetShaped) : n.construct.isTarget := by
  cases h with
  | plain kind => rcases kind with kind | kind | kind <;> rw [kind] <;> rfl
  | display kind => rcases kind with kind | kind <;> rw [kind] <;> rfl
  | starred kind => rw [kind]; rfl

/-- A node of one of the constructs is a target when the nodes that share its usage are. -/
theorem TargetLayer.targetShaped_iff {n : Node} (h : TargetLayer n) :
    n.TargetShaped ↔ ∀ child ∈ n.inner, child.TargetShaped := by
  cases h with
  | plain kind named old position =>
      simp only [inner_plain kind, List.not_mem_nil, false_implies, implies_true, iff_true]
      exact .plain kind
  | display kind elements old position =>
      rw [inner_display kind]
      refine ⟨fun hshaped => ?_, fun hinside => .display kind rfl hinside⟩
      cases hshaped with
      | plain other => rcases kind with rfl | rfl <;> simp [construct] at other
      | display _ held inside => cases held; exact inside
      | starred other => rcases kind with rfl | rfl <;> cases other
  | starred value old position =>
      rw [inner_starred, List.forall_mem_singleton]
      refine ⟨fun hshaped => ?_, fun hinside => .starred rfl rfl hinside⟩
      cases hshaped with
      | plain other => simp [construct] at other
      | display other => simp [construct] at other
      | starred _ held inside => cases held; exact inside

/-- A node is a target when there is no other node at its target positions. -/
theorem targetShaped_iff {n : Node} (h : n.Everywhere HoldsTargets) :
    n.TargetShaped ↔ n.stray? = none := by
  induction n using induction_children with
  | step n ih =>
      have hinner : ∀ child ∈ n.inner, (child.TargetShaped ↔ child.stray? = none) :=
        fun child hchild =>
          have hmem := mem_children_of_mem_inner hchild
          ih child hmem (h.child hmem)
      rw [stray?_eq]
      cases hkind : n.construct.isTarget with
      | false =>
          simp only [Bool.false_eq_true, if_false, reduceCtorEq, iff_false]
          intro hshaped
          cases hkind.symm.trans hshaped.isTarget
      | true =>
          rw [(h.self.layer hkind).targetShaped_iff, if_pos rfl, List.findSome?_eq_none_iff]
          exact forall₂_congr hinner

/-! ## Binding -/

variable {usage : Usage}

/-- A step on targets reports the first node that cannot be one, or yields a value with a
property. -/
def Settles {α : Type} (usage : Usage) (stray? : Option Node) (outcome : Except Error α)
    (holds : α → Prop) : Prop :=
  match stray? with
  | none => ∃ value, outcome = .ok value ∧ holds value
  | some n => outcome = .error (usage.refusal n)

namespace Settles

variable {α β : Type} {first? rest? : Option Node} {outcome : Except Error α} {holds : α → Prop}

theorem bind (h : Settles usage first? outcome holds) {next : α → Except Error β}
    {result : β → Prop} (hnext : ∀ value, holds value → Settles usage rest? (next value) result) :
    Settles usage (first?.or rest?) (outcome >>= next) result := by
  cases first? with
  | none =>
      obtain ⟨value, rfl, hvalue⟩ := h
      exact hnext value hvalue
  | some n =>
      obtain rfl : outcome = .error (usage.refusal n) := h
      rfl

theorem map (h : Settles usage first? outcome holds) {f : α → β} {result : β → Prop}
    (himp : ∀ value, holds value → result (f value)) :
    Settles usage first? (outcome.map f) result := by
  cases first? with
  | none =>
      obtain ⟨value, rfl, hvalue⟩ := h
      exact ⟨f value, rfl, himp value hvalue⟩
  | some n =>
      obtain rfl : outcome = .error (usage.refusal n) := h
      rfl

end Settles

/-- The nodes of a list are bound in their order. -/
theorem settles_mapM {elements : List Node}
    (h : ∀ element ∈ elements,
      Settles usage element.stray? (element.bind usage) (Retargeted usage element)) :
    Settles usage (elements.findSome? stray?) (elements.mapM (bind usage))
      (List.Forall₂ (Retargeted usage) elements) := by
  induction elements with
  | nil => exact ⟨[], rfl, .nil⟩
  | cons element rest ih =>
      obtain ⟨hfirst, hrest⟩ := List.forall_mem_cons.mp h
      have hstray : (element :: rest).findSome? stray? =
          element.stray?.or ((rest.findSome? stray?).or none) := by
        rw [List.findSome?_cons, Option.or_none]
        cases element.stray? <;> rfl
      rw [hstray, List.mapM_cons]
      refine hfirst.bind fun bound hbound => ?_
      refine (ih hrest).bind fun others hothers => ?_
      exact ⟨bound :: others, rfl, .cons hbound hothers⟩

/-- Binding reports the first node at a target position that cannot be a target, and where
there is none it gives the node the usage at its target positions. -/
theorem settles_bind {n : Node} (h : n.Everywhere HoldsTargets) :
    Settles usage n.stray? (n.bind usage) (Retargeted usage n) := by
  induction n using induction_children with
  | step n ih =>
      have hinner : ∀ child ∈ n.inner,
          Settles usage child.stray? (child.bind usage) (Retargeted usage child) :=
        fun child hchild =>
          have hmem := mem_children_of_mem_inner hchild
          ih child hmem (h.child hmem)
      rw [stray?_eq]
      cases hkind : n.construct.isTarget with
      | false =>
          -- the node is refused before anything inside it is looked at
          obtain ⟨construct, fields, position⟩ := n
          have hctx : construct.hasSlot "ctx" = false := construct.hasSlot_ctx_eq.trans hkind
          show bind usage (.mk construct fields position) = _
          rw [bind, hctx]
          rfl
      | true =>
          rw [if_pos rfl]
          cases h.self.layer hkind with
          | plain kind named old position =>
              rw [inner_plain kind, bind_plain kind _ named]
              exact ⟨_, rfl, .plain kind _ old position⟩
          | display kind elements old position =>
              rw [inner_display kind] at hinner ⊢
              rw [bind_display kind]
              exact (settles_mapM hinner).map fun _ => .display kind old position
          | starred value old position =>
              rw [inner_starred] at hinner ⊢
              rw [bind_starred, List.findSome?_singleton]
              exact (hinner value List.mem_cons_self).map fun _ => .starred old position

theorem mapM_bind_congr {elements bound : List Node}
    (h : List.Forall₂ (fun element place => place.bind usage = element.bind usage) elements bound) :
    bound.mapM (bind usage) = elements.mapM (bind usage) := by
  induction h with
  | nil => rfl
  | cons hhead _ ih => rw [List.mapM_cons, List.mapM_cons, hhead, ih]

/-- Binding looks at no usage that is there, so it does not see whether a node was bound
before. -/
theorem Retargeted.bind_eq {first : Usage} {n m : Node} (h : n.Everywhere HoldsTargets)
    (hsame : Retargeted first n m) : m.bind usage = n.bind usage := by
  induction n using induction_children generalizing m with
  | step n ih =>
      -- binding takes the old usage from no layer, so both nodes give the same
      cases hsame with
      | @plain construct kind others old position =>
          have hnames : (others ++ [("ctx", old)]).map (·.1) = construct.slots :=
            h.self.followsSchema
          have named : others.map (·.1) ++ ["ctx"] = construct.slots := by simpa using hnames
          rw [bind_plain kind _ named, bind_plain kind _ named]
      | display kind old position inside =>
          obtain ⟨hlength, hpairs⟩ := List.forall₂_iff_zip.mp inside
          have hall := List.forall₂_iff_zip.mpr ⟨hlength, fun hpair =>
            have hmem : _ ∈ children _ := by simpa using Or.inl (List.of_mem_zip hpair).1
            ih _ hmem (h.child hmem) (hpairs hpair)⟩
          rw [bind_display kind, bind_display kind, mapM_bind_congr hall]
      | starred old position inside =>
          have hinside := ih _ (by simp) (h.child (by simp)) inside
          rw [bind_starred, bind_starred, hinside]

end Node

end TreeLowering
