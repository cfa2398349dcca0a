/-
# Steps of a parameter list

What a parameter does to a signature: one law for each kind of parameter, with the
conditions under which it is placed and the signature that it leaves. Tokens and
placeholders are passed over, and a node stands for a parameter without a default.
-/

import TreeLowering.Proofs.Reduction.Signature

namespace TreeLowering

open TreeLowering.Lowering

/-! ## Pieces -/

namespace Reduced

/-- Whether a part is a single piece of a parameter list. -/
def isPiece : Reduced → Bool
  | .node _ | .parameter _ | .token _ | .absent => true
  | _ => false

/-- The parameter that a piece stands for. A bare node has no default. -/
def parameter? : Reduced → Option Parameter
  | .node n => some (.plain n none)
  | .parameter p => some p
  | _ => none

/-- The parameters of a list of pieces, without tokens and placeholders. -/
def parametersOf (pieces : List Reduced) : List Parameter :=
  pieces.filterMap parameter?

end Reduced

namespace Lowering

open TreeLowering.Reduced

theorem checkParameter_bind_eq_ok_iff {α : Type} {n : Node} {f : Unit → Except Error α}
    {result : α} :
    (checkParameter n >>= f) = .ok result ↔ n.construct = .parameter ∧ f () = .ok result := by
  rw [checkParameter]
  split
  case isTrue h => simp [h, bind, Except.bind]
  case isFalse h => simp [h, bind, Except.bind]

namespace Signature

variable {s next : Signature} {n : Node} {pieces rest : List Reduced}

/-! ## Single parameters -/

theorem addPlain_eq_ok_iff {default? : Option Node} :
    s.addPlain n default? = .ok next ↔ n.construct = .parameter ∧
      (s.star?.isSome ∧ next = { s with
          keywordOnly := s.keywordOnly ++ [n], keywordDefaults := s.keywordDefaults ++ [default?] } ∨
        s.star? = none ∧ (default? = none → s.defaults = []) ∧ next = { s with
          positional := s.positional ++ [n], defaults := s.defaults ++ default?.toList }) := by
  rw [addPlain.eq_def, checkParameter_bind_eq_ok_iff]
  refine and_congr_right fun _ => ?_
  cases hstar : s.star? with
  | some star => simp [eq_comm]
  | none =>
      cases default? with
      | some value => simp [eq_comm]
      | none => cases s.defaults <;> simp [eq_comm]

theorem add_plain_eq_ok_iff {default? : Option Node} :
    s.add (.parameter (.plain n default?)) = .ok next ↔
      s.mapping? = none ∧ s.addPlain n default? = .ok next := by
  cases hmapping : s.mapping? <;> simp [add, hmapping]

theorem add_slash_eq_ok_iff :
    s.add (.parameter .slash) = .ok next ↔
      s.mapping? = none ∧ s.star? = none ∧ s.positionalOnly = [] ∧ s.positional ≠ [] ∧
        next = { s with positionalOnly := s.positional, positional := [] } := by
  cases hmapping : s.mapping? <;> cases hstar : s.star? <;> cases hfirst : s.positionalOnly <;>
    cases hrest : s.positional <;>
      simp [add, addSlash, hmapping, hstar, hfirst, hrest, eq_comm]

theorem add_star_eq_ok_iff {parameter? : Option Node} :
    s.add (.parameter (.star parameter?)) = .ok next ↔
      s.mapping? = none ∧ s.star? = none ∧ (∀ p ∈ parameter?, p.construct = .parameter) ∧
        next = { s with star? := some parameter? } := by
  cases hmapping : s.mapping? with
  | some m => simp [add, hmapping]
  | none =>
      cases hstar : s.star? with
      | some star => simp [add, addStar, hmapping, hstar]
      | none =>
          cases parameter? with
          | none => simp [add, addStar, hmapping, hstar, eq_comm]
          | some p =>
              simp [add, addStar, hmapping, hstar, checkParameter_bind_eq_ok_iff, eq_comm (a := next)]

theorem add_mapping_eq_ok_iff :
    s.add (.parameter (.mapping n)) = .ok next ↔
      s.mapping? = none ∧ n.construct = .parameter ∧ next = { s with mapping? := some n } := by
  cases hmapping : s.mapping? <;>
    simp [add, addMapping, hmapping, checkParameter_bind_eq_ok_iff, eq_comm (a := next)]

/-! ## Lists of pieces -/

theorem addPieces_singleton (s : Signature) (piece : Reduced) :
    s.addPieces [piece] = s.add piece := by
  rw [addPieces_cons]
  cases s.add piece <;> rfl

theorem addPieces_append (s : Signature) (before after : List Reduced) :
    s.addPieces (before ++ after) = s.addPieces before >>= fun next => next.addPieces after := by
  induction before generalizing s with
  | nil => rfl
  | cons piece rest ih =>
      rw [List.cons_append, addPieces_cons, addPieces_cons]
      cases s.add piece with
      | error e => rfl
      | ok next => exact ih next

theorem add_fragment {run : List Reduced} {name : String} {position : Position}
    (h : s.mapping? = none) :
    s.add (.fragment name run position) = s.addPieces run := by
  simp [add, h]

theorem add_fragment_eq_ok_iff {run : List Reduced} {name : String} {position : Position} :
    s.add (.fragment name run position) = .ok next ↔
      s.mapping? = none ∧ s.addPieces run = .ok next := by
  cases h : s.mapping? <;> simp [add, h]

theorem add_nodes_eq_ok_iff {nodes : List Node} :
    s.add (.nodes nodes) = .ok next ↔ s.mapping? = none ∧ s.addAll nodes = .ok next := by
  cases h : s.mapping? <;> simp [add, h]

/-- A node is placed like the parameter that it stands for. -/
theorem add_node_eq_ok_iff :
    s.add (.node n) = .ok next ↔ s.add (.parameter (.plain n none)) = .ok next := by
  rw [add_plain_eq_ok_iff]
  cases hmapping : s.mapping? <;> simp [add, hmapping]

/-- Single pieces are placed like the parameters among them. -/
theorem addPieces_eq_ok_iff (hpieces : ∀ piece ∈ pieces, piece.isPiece) :
    s.addPieces pieces = .ok next ↔
      s.addPieces ((parametersOf pieces).map .parameter) = .ok next := by
  induction pieces generalizing s with
  | nil => rfl
  | cons piece rest ih =>
      obtain ⟨hpiece, hrest⟩ := List.forall_mem_cons.mp hpieces
      cases piece with
      | token | absent => exact ih hrest
      | parameter p =>
          show s.addPieces (.parameter p :: rest) = _ ↔
            s.addPieces (.parameter p :: (parametersOf rest).map .parameter) = _
          rw [addPieces_cons, addPieces_cons]
          cases s.add (.parameter p) with
          | error e => rfl
          | ok step => exact ih hrest
      | node n =>
          show s.addPieces (.node n :: rest) = _ ↔
            s.addPieces (.parameter (.plain n none) :: (parametersOf rest).map .parameter) = _
          rw [addPieces_cons, addPieces_cons]
          cases hnode : s.add (.node n) with
          | ok step =>
              rw [add_node_eq_ok_iff.mp hnode]
              exact ih hrest
          | error e =>
              cases hplain : s.add (.parameter (.plain n none)) with
              | ok step => rw [add_node_eq_ok_iff.mpr hplain] at hnode; cases hnode
              | error e => simp [bind, Except.bind]
      | _ => cases hpiece

/-- The node of a signature needs a parameter behind a star without a name. -/
theorem build_eq_ok_iff {position : Position} {result : Node} :
    s.build position = .ok result ↔
      (s.star? = some none → s.keywordOnly ≠ []) ∧ result = .mk .arguments s.fields position := by
  have hbare : (s.star?.any Option.isNone && s.keywordOnly.isEmpty) = true ↔
      s.star? = some none ∧ s.keywordOnly = [] := by
    rcases s.star? with _ | (_ | p) <;> simp
  rw [build]
  split
  case isTrue h =>
    obtain ⟨hstar, hnone⟩ := hbare.mp h
    simp [hstar, hnone]
  case isFalse h =>
    have hsome : s.star? = some none → s.keywordOnly ≠ [] := fun hstar hnone =>
      h (hbare.mpr ⟨hstar, hnone⟩)
    rw [Node.build_of_slots rfl, and_iff_right hsome, Except.ok.injEq, eq_comm]
    rfl

end Signature

end Lowering

end TreeLowering
