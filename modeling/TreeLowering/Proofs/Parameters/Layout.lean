/-
# Layouts of parameter lists

A parameter list in order is a run of parameters for each way of passing, with the marks
between them. The pieces that a signature has taken are always such a list: whatever is
added to the signature of a layout extends the layout by one parameter.
-/

import TreeLowering.Proofs.Parameters.Steps

namespace TreeLowering

open TreeLowering.Lowering TreeLowering.Reduced

/-! ## Parameters -/

namespace Parameter

/-- A plain parameter and its default. -/
@[simp]
def plain? : Parameter → Option (Node × Option Node)
  | .plain n default? => some (n, default?)
  | _ => none

/-- What stands at a star: a name, or nothing. -/
@[simp]
def star? : Parameter → Option (Option Node)
  | .star parameter? => some parameter?
  | _ => none

/-- The parameter of a double star. -/
@[simp]
def mapping? : Parameter → Option Node
  | .mapping n => some n
  | _ => none

/-- Whether a parameter is plain. -/
@[simp]
def isPlain : Parameter → Bool
  | .plain _ _ => true
  | _ => false

/-- Whether a parameter is a slash. -/
@[simp]
def isSlash : Parameter → Bool
  | .slash => true
  | _ => false

/-- Whether a parameter is a star, with a name or without. -/
@[simp]
def isStar : Parameter → Bool
  | .star _ => true
  | _ => false

/-- Whether a parameter is a double star. -/
@[simp]
def isMapping : Parameter → Bool
  | .mapping _ => true
  | _ => false

/-- The nodes of a parameter list that must be parameters; a default is none of them. -/
def named : Parameter → List Node
  | .plain n _ => [n]
  | .star parameter? => parameter?.toList
  | .mapping n => [n]
  | .slash => []

/-- Plain parameters with their defaults as parameters of a list. -/
def plains (parameters : List (Node × Option Node)) : List Parameter :=
  parameters.map fun p => .plain p.1 p.2

end Parameter

open Parameter

/-- A parameter does not go without a default behind one that has it. -/
def KeepsDefault (first second : Node × Option Node) : Prop :=
  first.2.isSome → second.2.isSome

instance : DecidableRel KeepsDefault := fun first second =>
  inferInstanceAs (Decidable (first.2.isSome → second.2.isSome))

/-! ## Layouts -/

/-- The plain parameters of a list by the way in which they are passed, and the two marked
ones. A slash stands behind the positional-only parameters, if there are any. -/
structure Layout where
  positionalOnly : List (Node × Option Node)
  positional : List (Node × Option Node)
  star? : Option (Option Node)
  keywordOnly : List (Node × Option Node)
  mapping? : Option Node
  defaultsLast : (positionalOnly ++ positional).Pairwise KeepsDefault
  starred : star? = none → keywordOnly = []

namespace Layout

variable (l : Layout) {p : Parameter} {next : Signature}

/-- No parameters. -/
def empty : Layout where
  positionalOnly := []
  positional := []
  star? := none
  keywordOnly := []
  mapping? := none
  defaultsLast := .nil
  starred _ := rfl

/-- The parameters before the star. -/
def leading : List Parameter :=
  plains l.positionalOnly ++ (if l.positionalOnly = [] then [] else [.slash]) ++
    plains l.positional

/-- The parameters from the star on. -/
def trailing : List Parameter :=
  l.star?.toList.map .star ++ plains l.keywordOnly ++ l.mapping?.toList.map .mapping

/-- The parameters of a layout, in source order. -/
def parameters : List Parameter :=
  l.leading ++ l.trailing

/-- The signature of a layout. -/
def signature : Signature where
  positionalOnly := l.positionalOnly.map (·.1)
  positional := l.positional.map (·.1)
  defaults := (l.positionalOnly ++ l.positional).filterMap (·.2)
  star? := l.star?
  keywordOnly := l.keywordOnly.map (·.1)
  keywordDefaults := l.keywordOnly.map (·.2)
  mapping? := l.mapping?

theorem signature_empty : empty.signature = .empty := rfl

variable {l}

/-! ## One more parameter -/

/-- What is added to the signature of a layout extends the layout. -/
theorem exists_of_add (h : l.signature.add (.parameter p) = .ok next) :
    (∀ n ∈ p.named, n.construct = .parameter) ∧
      ∃ extended : Layout, extended.parameters = l.parameters ++ [p] ∧
        extended.signature = next := by
  cases p with
  | plain n default? =>
      obtain ⟨hmapping, hadd⟩ := Signature.add_plain_eq_ok_iff.mp h
      obtain ⟨hkind, hplace⟩ := Signature.addPlain_eq_ok_iff.mp hadd
      refine ⟨by simpa [named] using hkind, ?_⟩
      rcases hplace with ⟨hstar, rfl⟩ | ⟨hstar, hdefaults, rfl⟩
      · refine ⟨{ l with
          keywordOnly := l.keywordOnly ++ [(n, default?)]
          starred := fun hnone => absurd hnone (Option.isSome_iff_ne_none.mp hstar) }, ?_, ?_⟩
        · simp [parameters, leading, trailing, plains, show l.mapping? = none from hmapping]
        · simp [signature]
      · have hnone := l.starred hstar
        -- Without a default, a parameter may only follow others without.
        have hlast : (l.positionalOnly ++ (l.positional ++ [(n, default?)])).Pairwise
            KeepsDefault := by
          rw [← List.append_assoc, List.pairwise_append]
          refine ⟨l.defaultsLast, List.pairwise_singleton _ _, fun before hbefore last hlast => ?_⟩
          rw [List.mem_singleton.mp hlast]
          intro hsome
          by_contra hmissing
          have hempty := hdefaults (Option.not_isSome_iff_eq_none.mp hmissing)
          rw [signature, List.filterMap_eq_nil_iff] at hempty
          simp [hempty before hbefore] at hsome
        refine ⟨{ l with
          positional := l.positional ++ [(n, default?)]
          defaultsLast := hlast }, ?_, ?_⟩
        · simp [parameters, leading, trailing, plains, show l.mapping? = none from hmapping,
            show l.star? = none from hstar, hnone]
        · have hslot : [(n, default?)].filterMap (·.2) = default?.toList := by
            cases default? <;> rfl
          simp only [signature, ← List.append_assoc, List.filterMap_append, hslot]
          simp
  | star p? =>
      obtain ⟨hmapping, hstar, hkind, rfl⟩ := Signature.add_star_eq_ok_iff.mp h
      refine ⟨by simpa [named] using hkind, { l with
        star? := some p?
        starred := fun hnone => absurd hnone (Option.some_ne_none p?) }, ?_, rfl⟩
      simp [parameters, leading, trailing, plains, show l.mapping? = none from hmapping,
        show l.star? = none from hstar, l.starred hstar]
  | mapping n =>
      obtain ⟨hmapping, hkind, rfl⟩ := Signature.add_mapping_eq_ok_iff.mp h
      refine ⟨by simpa [named] using hkind, { l with mapping? := some n }, ?_, rfl⟩
      simp [parameters, leading, trailing, show l.mapping? = none from hmapping]
  | slash =>
      obtain ⟨hmapping, hstar, hfirst, hsome, rfl⟩ := Signature.add_slash_eq_ok_iff.mp h
      simp only [signature, List.map_eq_nil_iff, ne_eq] at hmapping hstar hfirst hsome
      have hlast := l.defaultsLast
      rw [hfirst, List.nil_append] at hlast
      refine ⟨by simp [named], { l with
        positionalOnly := l.positional
        positional := []
        defaultsLast := by simpa using hlast }, ?_, ?_⟩
      · simp [parameters, leading, trailing, plains, hmapping, hstar, hfirst, hsome, l.starred hstar]
      · simp [signature, hfirst]

/-- The parameters that a signature has taken are those of a layout. -/
theorem exists_of_addPieces {ps : List Parameter} {l : Layout} {s : Signature}
    (h : l.signature.addPieces (ps.map .parameter) = .ok s) :
    (∀ p ∈ ps, ∀ n ∈ p.named, n.construct = .parameter) ∧
      ∃ last : Layout, last.parameters = l.parameters ++ ps ∧ last.signature = s := by
  induction ps generalizing l with
  | nil =>
      cases h
      exact ⟨by simp, l, by simp, rfl⟩
  | cons p rest ih =>
      rw [List.map_cons, Signature.addPieces_cons] at h
      obtain ⟨next, hadd, hrest⟩ := exists_of_bind_eq_ok h
      obtain ⟨hkind, extended, hextended, rfl⟩ := exists_of_add hadd
      obtain ⟨hkinds, last, hlast, rfl⟩ := ih hrest
      refine ⟨List.forall_mem_cons.mpr ⟨hkind, hkinds⟩, last, ?_, rfl⟩
      rw [hlast, hextended, List.append_assoc, List.singleton_append]

end Layout

end TreeLowering
