/-
# Binding well-formed targets

On a well-formed node, binding rewrites one layer in one of five ways and goes on inside
displays and starred expressions only. What each layer keeps, given that the nodes
inside keep it, every target keeps.
-/

import TreeLowering.Proofs.Tree.WellFormed

namespace TreeLowering.Node

variable {usage : Usage}

/-! ## Targets of each construct -/

/-- A display is bound with all its elements. -/
theorem bind_display {construct : Construct} (kind : construct = .list ∨ construct = .tuple)
    (elements : List Node) (old : Value) (position : Position) :
    bind usage (.mk construct [("elts", .list elements), ("ctx", old)] position) =
      (elements.mapM (bind usage)).map fun bound =>
        .mk construct [("elts", .list bound), ("ctx", .usage usage)] position := by
  rcases kind with rfl | rfl <;>
    simp only [bind, bindFields, bindField.eq_def, Construct.boundSlots, Construct.hasSlot,
      Construct.slots, bindAll_eq_mapM] <;>
    cases elements.mapM (bind usage) <;> rfl

/-- A starred expression is bound with its value. -/
theorem bind_starred (value : Node) (old : Value) (position : Position) :
    bind usage (.mk .starred [("value", .node value), ("ctx", old)] position) =
      (value.bind usage).map fun bound =>
        .mk .starred [("value", .node bound), ("ctx", .usage usage)] position := by
  simp only [bind, bindFields, bindField.eq_def, Construct.boundSlots, Construct.hasSlot,
    Construct.slots]
  cases value.bind usage <;> rfl

/-- Outside displays and starred expressions nothing but the usage itself is bound. -/
theorem bindFields_plain {construct : Construct} (hstarred : construct ≠ .starred)
    {others : List (String × Value)}
    (hothers : ∀ field ∈ others, field.1 ≠ "ctx" ∧ field.1 ≠ "elts") (old : Value) :
    bindFields usage construct (others ++ [("ctx", old)]) =
      .ok (others ++ [("ctx", .usage usage)]) := by
  induction others with
  | nil => simp [bindFields, bindField.eq_def]
  | cons field rest ih =>
      obtain ⟨slot, value⟩ := field
      obtain ⟨⟨hctx, helts⟩, hrest⟩ := List.forall_mem_cons.mp hothers
      have hsame : bindField usage construct slot value = .ok value := by
        cases value <;> simp [bindField.eq_def, hctx, helts, hstarred]
      rw [List.cons_append, bindFields, hsame, ih hrest]
      rfl

/-- A name, an attribute or a subscript changes nothing but its own usage: neither the object
of an access nor an index is bound. -/
theorem bind_plain {construct : Construct} (kind : construct = .name ∨ construct = .attribute ∨
    construct = .subscript) (others : List (String × Value))
    (named : others.map (·.1) ++ ["ctx"] = construct.slots) (old : Value) (position : Position) :
    bind usage (.mk construct (others ++ [("ctx", old)]) position) =
      .ok (.mk construct (others ++ [("ctx", .usage usage)]) position) := by
  have hkind : "elts" ∉ construct.slots ∧ construct ≠ .starred := by
    rcases kind with rfl | rfl | rfl <;> decide
  have hothers : ∀ field ∈ others, field.1 ≠ "ctx" ∧ field.1 ≠ "elts" := by
    intro field hfield
    have hname : field.1 ∈ others.map (·.1) := List.mem_map_of_mem hfield
    have hnodup : (others.map (·.1) ++ ["ctx"]).Nodup := named ▸ construct.slots_nodup
    have hslot : field.1 ∈ construct.slots := named ▸ List.mem_append_left _ hname
    exact ⟨(List.nodup_append.mp hnodup).2.2 _ hname _ List.mem_cons_self,
      fun heq => hkind.1 (heq ▸ hslot)⟩
  have hfields : bindFields usage construct (others ++ [("ctx", old)]) = .ok _ :=
    bindFields_plain hkind.2 hothers old
  rcases kind with rfl | rfl | rfl <;>
    simp [bind, Construct.boundSlots, Construct.hasSlot, Construct.slots, hfields]

/-- Only constructs with a usage are bound, and a target stays what it is. -/
theorem construct_of_bind {n m : Node} (h : n.bind usage = .ok m) :
    m.construct = n.construct ∧ n.construct.hasSlot "ctx" := by
  obtain ⟨construct, fields, position⟩ := n
  rw [bind] at h
  split at h
  case isFalse => cases h
  case isTrue hctx =>
    split at h
    · cases h
    · split at h <;> cases h
      exact ⟨rfl, hctx⟩

/-! ## One layer -/

/-- How binding rewrites one layer of a node, given what it does inside. -/
inductive Rebound (inner : Node → Node → Prop) (usage : Usage) : Node → Node → Prop
  | display {construct : Construct} (kind : construct = .list ∨ construct = .tuple)
      {elements bound : List Node} (old : Usage) (position : Position)
      (inside : List.Forall₂ inner elements bound) :
      Rebound inner usage
        (.mk construct [("elts", .list elements), ("ctx", .usage old)] position)
        (.mk construct [("elts", .list bound), ("ctx", .usage usage)] position)
  | starred {value bound : Node} (old : Usage) (position : Position)
      (inside : inner value bound) :
      Rebound inner usage
        (.mk .starred [("value", .node value), ("ctx", .usage old)] position)
        (.mk .starred [("value", .node bound), ("ctx", .usage usage)] position)
  | name (id : String) (old : Usage) (position : Position) :
      Rebound inner usage
        (.mk .name [("id", .text id), ("ctx", .usage old)] position)
        (.mk .name [("id", .text id), ("ctx", .usage usage)] position)
  | access (value : Node) (attr : String) (old : Usage) (position : Position) :
      Rebound inner usage
        (.mk .attribute (accessFields value attr old) position)
        (.mk .attribute (accessFields value attr usage) position)
  | subscript (value index : Node) (old : Usage) (position : Position) :
      Rebound inner usage
        (.mk .subscript [("value", .node value), ("slice", .node index), ("ctx", .usage old)]
          position)
        (.mk .subscript [("value", .node value), ("slice", .node index), ("ctx", .usage usage)]
          position)

theorem forall₂_of_mapM_eq_ok {α β : Type} {f : α → Except Error β} {items : List α}
    {values : List β} (h : items.mapM f = .ok values) :
    List.Forall₂ (fun item value => item ∈ items ∧ f item = .ok value) items values := by
  induction items generalizing values with
  | nil =>
      rw [List.mapM_nil] at h
      cases h
      exact .nil
  | cons item rest ih =>
      rw [List.mapM_cons] at h
      cases hf : f item with
      | error e => rw [hf] at h; cases h
      | ok value =>
          cases hr : rest.mapM f with
          | error e => rw [hf, hr] at h; cases h
          | ok others =>
              rw [hf, hr] at h
              cases h
              refine .cons ⟨List.mem_cons_self, hf⟩ ((ih hr).imp fun other value hother => ?_)
              exact ⟨List.mem_cons_of_mem _ hother.1, hother.2⟩

theorem rebound_of_bind {n m : Node} (h : n.WellFormed) (hb : n.bind usage = .ok m) :
    Rebound (fun child bound => child ∈ n.children ∧ child.bind usage = .ok bound) usage n m := by
  obtain ⟨construct, fields, position⟩ := n
  have hctx : construct.hasSlot "ctx" := (construct_of_bind hb).2
  rw [wellFormed_mk] at h
  cases h with
  | display kind elements old =>
      rw [bind_display kind] at hb
      cases hbound : elements.mapM (bind usage) with
      | error e => rw [hbound] at hb; cases hb
      | ok bound =>
          rw [hbound] at hb
          cases hb
          exact .display kind old position (by simpa using forall₂_of_mapM_eq_ok hbound)
  | starred value old =>
      rw [bind_starred] at hb
      cases hbound : value.bind usage with
      | error e => rw [hbound] at hb; cases hb
      | ok bound =>
          rw [hbound] at hb
          cases hb
          exact .starred old position ⟨by simp, hbound⟩
  | name id old =>
      cases (bind_plain (.inl rfl) [("id", .text id)] rfl (.usage old) position).symm.trans hb
      exact .name id old position
  | access value attr old =>
      cases (bind_plain (.inr (.inl rfl)) [("value", .node value), ("attr", .text attr)] rfl
        (.usage old) position).symm.trans hb
      exact .access value attr old position
  | subscript value index old =>
      cases (bind_plain (.inr (.inr rfl)) [("value", .node value), ("slice", .node index)] rfl
        (.usage old) position).symm.trans hb
      exact .subscript value index old position
  | branching kind | forLoop kind | withBlock kind | function kind | optionalValue kind
  | scope kind => rcases kind with rfl | rfl <;> cases hctx
  | elementComprehension kind | keywordStmt kind | requiredValue kind =>
      rcases kind with rfl | rfl | rfl <;> cases hctx
  | _ => cases hctx

/-- What one layer of binding keeps, given that the nodes inside keep it, binding keeps. -/
theorem bind_induction {motive : Node → Node → Prop}
    (step : ∀ {n m : Node}, n.Everywhere WellFormed →
      Rebound (fun child bound => child ∈ n.children ∧ child.bind usage = .ok bound ∧
        motive child bound) usage n m → motive n m)
    {n m : Node} (h : n.Everywhere WellFormed) (hb : n.bind usage = .ok m) : motive n m := by
  induction n using induction_children generalizing m with
  | step n ih =>
      have inner : ∀ child bound, child ∈ n.children ∧ child.bind usage = .ok bound →
          child ∈ n.children ∧ child.bind usage = .ok bound ∧ motive child bound :=
        fun child bound ⟨hchild, hbound⟩ =>
          ⟨hchild, hbound, ih child hchild (h.child hchild) hbound⟩
      refine step h ?_
      cases rebound_of_bind h.self hb with
      | display kind old position inside =>
          exact .display kind old position (inside.imp inner)
      | starred old position inside => exact .starred old position (inner _ _ inside)
      | name id old position => exact .name id old position
      | access value attr old position => exact .access value attr old position
      | subscript value index old position => exact .subscript value index old position

/-- Targets are as well formed as the nodes that they were. -/
theorem bind_wellFormed {n m : Node} (h : n.Everywhere WellFormed)
    (hb : n.bind usage = .ok m) : m.Everywhere WellFormed := by
  refine bind_induction (motive := fun _ m => m.Everywhere WellFormed) ?_ h hb
  intro n m hn hlayer
  cases hlayer with
  | display kind old position inside =>
      refine everywhere_mk_iff.mpr ⟨.display kind _ _, fun child hchild => ?_⟩
      simp only [childrenOf_cons, Value.children_list, Value.children_usage, childrenOf_nil,
        List.append_nil] at hchild
      obtain ⟨_, _, hbound⟩ := exists_of_forall₂_right inside hchild
      exact hbound.2.2
  | starred old position inside =>
      refine everywhere_mk_iff.mpr ⟨.starred _ _, ?_⟩
      simpa using inside.2.2
  | name id old position => exact everywhere_mk_iff.mpr ⟨.name _ _, by simp⟩
  | access value attr old position =>
      exact everywhere_mk_iff.mpr ⟨.access _ _ _, (everywhere_mk_iff.mp hn).2⟩
  | subscript value index old position =>
      exact everywhere_mk_iff.mpr ⟨.subscript _ _ _, (everywhere_mk_iff.mp hn).2⟩

/-! ## Outlines -/

/-- The ranges of the nodes that a node holds, each with the slot it is held in. -/
def spread (n : Node) : List (String × Position) :=
  n.fields.flatMap fun field => field.2.children.map fun child => (field.1, child.position)

theorem mem_spread {n : Node} {slot : String} {position : Position} :
    (slot, position) ∈ n.spread ↔
      ∃ field ∈ n.fields, field.1 = slot ∧
        ∃ child ∈ field.2.children, child.position = position := by
  simp only [spread, List.mem_flatMap, List.mem_map, Prod.mk.injEq]
  constructor
  · rintro ⟨field, hfield, child, hchild, hslot, hposition⟩
    exact ⟨field, hfield, hslot, child, hchild, hposition⟩
  · rintro ⟨field, hfield, hslot, child, hchild, hposition⟩
    exact ⟨field, hfield, child, hchild, hslot, hposition⟩

/-- Two nodes are of one construct and one range, and hold nodes of the same ranges in the
same slots. -/
structure SameOutline (n m : Node) : Prop where
  construct_eq : m.construct = n.construct
  position_eq : m.position = n.position
  spread_eq : m.spread = n.spread

theorem Rebound.sameOutline {inner : Node → Node → Prop} {n m : Node}
    (h : Rebound inner usage n m) (hinner : ∀ child bound, inner child bound →
      bound.position = child.position) : SameOutline n m := by
  cases h with
  | @display construct kind elements bound old position inside =>
      have hspread : bound.map (fun child => ("elts", child.position)) =
          elements.map fun child => ("elts", child.position) := by
        induction inside with
        | nil => rfl
        | cons hhead _ ih => rw [List.map_cons, List.map_cons, hinner _ _ hhead, ih]
      exact ⟨rfl, rfl, by simpa [spread, fields] using hspread⟩
  | starred old position inside =>
      exact ⟨rfl, rfl, by simp [spread, fields, hinner _ _ inside]⟩
  | name | access | subscript => exact ⟨rfl, rfl, rfl⟩

/-- Binding keeps outlines, and so at every depth what depends on outlines alone. -/
theorem bind_everywhere {holds : Node → Prop}
    (hkeeps : ∀ {n m : Node}, SameOutline n m → holds n → holds m) {n m : Node}
    (h : n.Everywhere WellFormed) (hb : n.bind usage = .ok m) (hn : n.Everywhere holds) :
    m.Everywhere holds := by
  suffices hmotive : SameOutline n m ∧ (n.Everywhere holds → m.Everywhere holds) from hmotive.2 hn
  refine bind_induction
    (motive := fun n m => SameOutline n m ∧ (n.Everywhere holds → m.Everywhere holds)) ?_ h hb
  intro n m _ hlayer
  have houtline := hlayer.sameOutline fun child bound hinner => hinner.2.2.1.position_eq
  refine ⟨houtline, fun hn => everywhere_iff.mpr ⟨hkeeps houtline hn.self, fun child hchild => ?_⟩⟩
  cases hlayer with
  | display kind old position inside =>
      simp only [children_mk, childrenOf_cons, Value.children_list, Value.children_usage,
        childrenOf_nil, List.append_nil] at hchild
      obtain ⟨element, _, helement, _, _, hkept⟩ := exists_of_forall₂_right inside hchild
      exact hkept (hn.child helement)
  | starred old position inside =>
      obtain ⟨hvalue, _, _, hkept⟩ := inside
      obtain rfl : child = _ := by simpa using hchild
      exact hkept (hn.child hvalue)
  | name => simp at hchild
  | access | subscript => exact hn.child hchild

end TreeLowering.Node
