/-
# Decorated definitions

Decorators are stored in one slot of the definition that they stand before, and nothing else of
it changes. The slot is overwritten: a definition that carries decorators already loses them,
so of several layers of decorators around it only the outermost is left.
-/

import TreeLowering.Proofs.NodeGroups
import TreeLowering.Proofs.Reduction.Places

namespace TreeLowering

open TreeLowering.Lowering TreeLowering.Reduced

/-! ## One slot replaced -/

namespace Node

variable {n m k : Node} {slot : String} {value : Value}

/-- Two nodes that differ at most in the content of one slot. -/
structure AgreesExcept (slot : String) (n m : Node) : Prop where
  construct_eq : m.construct = n.construct
  position_eq : m.position = n.position
  names_eq : m.fields.map (·.1) = n.fields.map (·.1)
  get?_eq : ∀ other, other ≠ slot → m.get? other = n.get? other

theorem AgreesExcept.refl (slot : String) (n : Node) : AgreesExcept slot n n :=
  ⟨rfl, rfl, rfl, fun _ _ => rfl⟩

theorem AgreesExcept.trans (h : AgreesExcept slot n m) (h' : AgreesExcept slot m k) :
    AgreesExcept slot n k where
  construct_eq := h'.construct_eq.trans h.construct_eq
  position_eq := h'.position_eq.trans h.position_eq
  names_eq := h'.names_eq.trans h.names_eq
  get?_eq other hne := (h'.get?_eq other hne).trans (h.get?_eq other hne)

theorem AgreesExcept.followsSchema (h : AgreesExcept slot n m) (hn : n.FollowsSchema) :
    m.FollowsSchema := by
  rw [FollowsSchema, h.names_eq, h.construct_eq]
  exact hn

theorem lookup_of_replaceField? {fields replaced : List (String × Value)}
    (h : replaceField? slot value fields = some replaced) :
    replaced.lookup slot = some value ∧
      ∀ other, other ≠ slot → replaced.lookup other = fields.lookup other := by
  induction fields generalizing replaced with
  | nil => cases h
  | cons field rest ih =>
      obtain ⟨name, old⟩ := field
      rw [replaceField?] at h
      split at h
      case isTrue hname =>
        cases h
        subst hname
        refine ⟨List.lookup_cons_self, fun other hne => ?_⟩
        rw [List.lookup_cons, List.lookup_cons, beq_false_of_ne hne]
      case isFalse hname =>
        obtain ⟨others, hothers, rfl⟩ := Option.map_eq_some_iff.mp h
        obtain ⟨hslot, hkept⟩ := ih hothers
        refine ⟨?_, fun other hne => ?_⟩
        · rw [List.lookup_cons, beq_false_of_ne (Ne.symm hname)]
          exact hslot
        · rw [List.lookup_cons, List.lookup_cons, hkept other hne]

/-- Replacing a slot changes that slot and nothing else. -/
theorem agreesExcept_of_setField (h : n.setField slot value = .ok m) :
    AgreesExcept slot n m ∧ m.get? slot = some value := by
  obtain ⟨replaced, hreplaced, rfl⟩ := exists_of_setField_eq_ok h
  obtain ⟨hslot, hkept⟩ := lookup_of_replaceField? hreplaced
  exact ⟨⟨rfl, rfl, (map_fst_of_replaceField? hreplaced).2, hkept⟩, hslot⟩

end Node

/-! ## One layer of decorators -/

variable {definition : Node} {run : List Reduced} {decorators carried : List Node}
  {layers : List (Position × List Reduced)} {groups : List (List Node)}

theorem mem_slots_of_isDecorable (h : isDecorable definition) :
    "decorator_list" ∈ definition.construct.slots := by
  simp only [isDecorable, Bool.or_eq_true, decide_eq_true_eq] at h
  rcases h with (hkind | hkind) | hkind <;> rw [hkind] <;> decide

/-- A layer of decorators becomes the decorators of the definition, whatever it has carried. -/
theorem apply_decorated (options : Options) (position : Position)
    (hschema : definition.FollowsSchema) (hkind : isDecorable definition)
    (hrun : gather run = .ok decorators) (hsome : decorators ≠ []) :
    ∃ n, apply options .decorated position (run ++ [.node definition]) = .ok (.node n) ∧
      definition.AgreesExcept "decorator_list" n ∧
      n.get? "decorator_list" = some (.list decorators) := by
  obtain ⟨n, hset⟩ :=
    Node.setField_of_followsSchema hschema (mem_slots_of_isDecorable hkind) (.list decorators)
  refine ⟨n, ?_, Node.agreesExcept_of_setField hset⟩
  have hempty : decorators.isEmpty = false := by simpa using hsome
  rw [apply_eq_ok_iff]
  show decorated ⟨.decorated, position, options⟩ (run ++ [.node definition]) = _
  rw [decorated_eq, List.getLast?_concat, List.dropLast_concat]
  show (if isDecorable definition then _ else _) = _
  rw [if_pos hkind, hrun]
  show (if decorators.isEmpty then _ else _) = _
  rw [hempty, hset]
  rfl

/-! ## Layers around layers -/

/-- Layers of decorators around a definition, from the inside out. Each is reduced with what
the one before it has made of the definition. -/
def redecorate (options : Options) (definition : Reduced)
    (layers : List (Position × List Reduced)) : Except Error Reduced :=
  layers.foldlM (fun inner layer => apply options .decorated layer.1 (layer.2 ++ [inner]))
    definition

/-- The groups are the decorators of the layers, and no layer is without. -/
def LayersOf (layers : List (Position × List Reduced)) (groups : List (List Node)) : Prop :=
  List.Forall₂ (fun layer decorators => gather layer.2 = .ok decorators ∧ decorators ≠ [])
    layers groups

theorem exists_redecorate (options : Options) (h : LayersOf layers groups)
    (hschema : definition.FollowsSchema) (hkind : isDecorable definition)
    (hcarried : definition.get? "decorator_list" = some (.list carried)) :
    ∃ n, redecorate options (.node definition) layers = .ok (.node n) ∧
      definition.AgreesExcept "decorator_list" n ∧
      n.get? "decorator_list" = some (.list (groups.getLast?.getD carried)) := by
  induction h generalizing definition carried with
  | nil => exact ⟨definition, rfl, .refl _ _, hcarried⟩
  | @cons layer decorators _ others hlayer _ ih =>
      obtain ⟨inner, hinner, hagrees, hlist⟩ :=
        apply_decorated options layer.1 hschema hkind hlayer.1 hlayer.2
      have hkept : isDecorable inner := by rwa [isDecorable, hagrees.construct_eq]
      obtain ⟨n, hn, hagrees', hlist'⟩ := ih (hagrees.followsSchema hschema) hkept hlist
      refine ⟨n, ?_, hagrees.trans hagrees', ?_⟩
      · rw [redecorate, List.foldlM_cons, hinner]
        exact hn
      · cases others <;> simpa [List.getLast?_cons] using hlist'

theorem LayersOf.ne_nil (h : LayersOf layers groups) : ∀ decorators ∈ groups, decorators ≠ [] := by
  intro decorators hmem
  obtain ⟨_, -, hlayer⟩ := exists_of_forall₂_right h hmem
  exact hlayer.2

/-- The last of some groups is all of them only if there are no others. -/
theorem getLast?_getD_eq_iff (hsome : ∀ decorators ∈ groups, decorators ≠ []) :
    groups.getLast?.getD carried = groups.reverse.flatten ++ carried ↔
      groups = [] ∨ groups.length = 1 ∧ carried = [] := by
  rcases List.eq_nil_or_concat groups with rfl | ⟨others, last, rfl⟩
  · simp
  · rw [List.concat_eq_append] at hsome ⊢
    have hothers : others.reverse.flatten = [] ↔ others = [] := by
      constructor
      · intro hempty
        rw [List.eq_nil_iff_forall_not_mem]
        intro decorators hmem
        exact hsome decorators (List.mem_append_left _ hmem)
          (List.flatten_eq_nil_iff.mp hempty decorators (List.mem_reverse.mpr hmem))
      · rintro rfl
        rfl
    simp [hothers]

/-- Every layer around a definition is accepted, and what comes out has the kind, the range and
all other fields of the definition. Its decorators are those of the outermost layer. So they are
all decorators in source order, from the outermost layer to those that the definition carried,
exactly if there is no layer, or one layer around a definition that carried none. -/
theorem redecorate_keeps_outermost (options : Options) {definition : Node}
    (hschema : definition.FollowsSchema) (hkind : isDecorable definition) {carried : List Node}
    (hcarried : definition.get? "decorator_list" = some (.list carried))
    {layers : List (Position × List Reduced)} {groups : List (List Node)}
    (hlayers : LayersOf layers groups) :
    ∃ n, redecorate options (.node definition) layers = .ok (.node n) ∧
      definition.AgreesExcept "decorator_list" n ∧
      n.get? "decorator_list" = some (.list (groups.getLast?.getD carried)) ∧
      (n.get? "decorator_list" = some (.list (groups.reverse.flatten ++ carried)) ↔
        groups = [] ∨ groups.length = 1 ∧ carried = []) := by
  obtain ⟨n, hn, hagrees, hlist⟩ := exists_redecorate options hlayers hschema hkind hcarried
  refine ⟨n, hn, hagrees, hlist, ?_⟩
  rw [hlist, Option.some.injEq, Value.list.injEq]
  exact getLast?_getD_eq_iff hlayers.ne_nil

/-- A class that carries no decorators. -/
def bareClass : Node :=
  .mk .classDef [("name", .text "C"), ("bases", .list []), ("keywords", .list []),
    ("body", .list [.mk .passStmt [] .unknown]), ("decorator_list", .list [])] .unknown

/-- A name as a decorator. -/
def namedDecorator (id : String) (position : Position) : Node :=
  .mk .name [("id", .text id), ("ctx", .usage .read)] position

/-- Two layers of decorators, from the inside out. -/
def twoLayers : List (Position × List Reduced) := [
  (⟨2, 1, 4, 5⟩, [.nodes [namedDecorator "b" .unknown, namedDecorator "c" .unknown]]),
  (⟨1, 1, 4, 5⟩, [.node (namedDecorator "a" .unknown)])]

/-- The decorators of the two layers. -/
def twoGroups : List (List Node) := [
  [namedDecorator "b" .unknown, namedDecorator "c" .unknown],
  [namedDecorator "a" .unknown]]

/-- A class in two layers of decorators, `a` around `b` and `c`, is left with `a`. -/
theorem redecorate_keeps_outermost_class :
    bareClass.FollowsSchema ∧ isDecorable bareClass ∧
    bareClass.get? "decorator_list" = some (.list []) ∧ LayersOf twoLayers twoGroups ∧
    ∃ n, redecorate .default (.node bareClass) twoLayers = .ok (.node n) ∧
      n.position = bareClass.position ∧
      n.get? "decorator_list" = some (.list [namedDecorator "a" .unknown]) := by
  have hschema : bareClass.FollowsSchema := by decide
  have hkind : isDecorable bareClass := by decide
  have hlayers : LayersOf twoLayers twoGroups :=
    .cons ⟨rfl, List.cons_ne_nil _ _⟩ (.cons ⟨rfl, List.cons_ne_nil _ _⟩ .nil)
  obtain ⟨n, hn, hagrees, hlist, -⟩ :=
    redecorate_keeps_outermost .default hschema hkind rfl hlayers
  exact ⟨hschema, hkind, rfl, hlayers, n, hn, hagrees.position_eq, hlist⟩

/-- A layer with one decorator around the tree of a definition. -/
def decoratorLayer (id : String) (line : Nat) (definition : ParseTree) : ParseTree :=
  .rule "decorated" [
    .rule "decorators" [.rule "decorator" [.rule "var" [.token ⟨"NAME", id, ⟨line, 2, line, 3⟩⟩]
      ⟨line, 2, line, 3⟩] ⟨line, 1, line, 3⟩] ⟨line, 1, line, 3⟩, definition] ⟨line, 1, 4, 5⟩

/-- The layer `@a` around the layer `@b` around a class loses `b`. -/
theorem reduce_decorated_loses_inner :
    ∃ n, reduce .default (decoratorLayer "a" 1 (decoratorLayer "b" 2
        (.rule "classdef" [.token ⟨"NAME", "C", ⟨3, 7, 3, 8⟩⟩, .rule "pass_stmt" [] ⟨4, 1, 4, 5⟩]
          ⟨3, 1, 4, 5⟩))) = .ok (.node n) ∧
      n.get? "decorator_list" = some (.list [namedDecorator "a" ⟨1, 2, 1, 3⟩]) ∧
      n.get? "decorator_list" ≠ some (.list [namedDecorator "a" ⟨1, 2, 1, 3⟩,
        namedDecorator "b" ⟨2, 2, 2, 3⟩]) := by
  refine ⟨_, rfl, rfl, fun h => ?_⟩
  have hlength := congrArg (Option.map fun value => value.list?.map List.length) h
  cases hlength

end TreeLowering
