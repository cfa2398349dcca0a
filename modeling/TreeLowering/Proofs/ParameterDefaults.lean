/-
# Defaults of parameters

The slots of an arguments node hold the defaults apart from their parameters. Those of
positional parameters are counted from the last one back, those of keyword-only
parameters stand at the same index. Read in this way, the node gives back the parameters
that it was made from.
-/

import TreeLowering.Proofs.ParameterLists

namespace TreeLowering

open TreeLowering.Lowering TreeLowering.Parameter TreeLowering.Reduced

/-! ## Reading a node -/

namespace Value

/-- The slots of a list in which slots may be empty. -/
def sparse? : Value → Option (List (Option Node))
  | .sparse slots => some slots
  | _ => none

/-- The node that the content is, if it does not stand for nothing. -/
def optional? : Value → Option (Option Node)
  | .node n => some (some n)
  | .scalar .none => some none
  | _ => none

@[simp]
theorem optional?_ofOption (node? : Option Node) : (ofOption node?).optional? = some node? := by
  cases node? <;> rfl

end Value

/-- The star of a signature, by the slots of its node: it has a name, or keyword-only
parameters stand behind it. -/
def starOf (variadic? : Option Node) (keywordOnly : List Node) : Option (Option Node) :=
  if variadic?.isSome || !keywordOnly.isEmpty then some variadic? else none

/-- The signature that the slots of a node hold. -/
def Node.signature? (n : Node) : Option Signature := do
  let positionalOnly ← (n.get? "posonlyargs").bind Value.list?
  let positional ← (n.get? "args").bind Value.list?
  let variadic? ← (n.get? "vararg").bind Value.optional?
  let keywordOnly ← (n.get? "kwonlyargs").bind Value.list?
  let keywordDefaults ← (n.get? "kw_defaults").bind Value.sparse?
  let mapping? ← (n.get? "kwarg").bind Value.optional?
  let defaults ← (n.get? "defaults").bind Value.list?
  return { positionalOnly, positional, defaults, star? := starOf variadic? keywordOnly,
           keywordOnly, keywordDefaults, mapping? }

/-- The last parameters with the given defaults, and those before them without. -/
def rightAligned (parameters defaults : List Node) : List (Node × Option Node) :=
  parameters.zip (.replicate (parameters.length - defaults.length) none ++ defaults.map some)

namespace Lowering.Signature

variable (s : Signature)

/-- The positional parameters, each with its default. -/
def positionalPairs : List (Node × Option Node) :=
  rightAligned (s.positionalOnly ++ s.positional) s.defaults

/-- The keyword-only parameters, each with its default. -/
def keywordPairs : List (Node × Option Node) :=
  s.keywordOnly.zip s.keywordDefaults

/-- The parameters of a signature as they are written. -/
def written : List Parameter :=
  plains (s.positionalPairs.take s.positionalOnly.length) ++
    (if s.positionalOnly = [] then [] else [.slash]) ++
    plains (s.positionalPairs.drop s.positionalOnly.length) ++
    s.star?.toList.map .star ++ plains s.keywordPairs ++ s.mapping?.toList.map .mapping

variable {s}

/-- The node of a signature holds it, where its star can be seen in the slots. -/
theorem signature?_fields (hbare : s.star? = some none → s.keywordOnly ≠ [])
    (hstarred : s.star? = none → s.keywordOnly = []) (position : Position) :
    (Node.mk .arguments s.fields position).signature? = some s := by
  have hstar : starOf s.star?.join s.keywordOnly = s.star? := by
    rcases hfound : s.star? with _ | _ | p
    · simp [starOf, hstarred hfound]
    · simp [starOf, hbare hfound]
    · simp [starOf]
  simp [Node.signature?, Node.get?, Node.fields, fields, List.lookup_cons, Value.list?,
    Value.sparse?,
    hstar]

end Lowering.Signature

/-! ## Pairing -/

theorem map_some_filterMap_snd {xs : List (Node × Option Node)} (h : ∀ x ∈ xs, x.2.isSome) :
    (xs.filterMap (·.2)).map some = xs.map (·.2) := by
  induction xs with
  | nil => rfl
  | cons x rest ih =>
      obtain ⟨hx, hrest⟩ := List.forall_mem_cons.mp h
      obtain ⟨value, hvalue⟩ := Option.isSome_iff_exists.mp hx
      simp [hvalue, ih hrest]

/-- Where no parameter goes without a default behind one that has it, the empty places come
first. -/
theorem replicate_append_filterMap_snd {xs : List (Node × Option Node)}
    (h : xs.Pairwise KeepsDefault) :
    .replicate (xs.length - (xs.filterMap (·.2)).length) none ++ (xs.filterMap (·.2)).map some =
      xs.map (·.2) := by
  induction xs with
  | nil => rfl
  | cons x rest ih =>
      obtain ⟨hkeeps, hrest⟩ := List.pairwise_cons.mp h
      obtain ⟨n, _ | value⟩ := x
      · have hfew : (rest.filterMap (·.2)).length ≤ rest.length := List.length_filterMap_le _ _
        have hcount : rest.length + 1 - (rest.filterMap (·.2)).length =
            rest.length - (rest.filterMap (·.2)).length + 1 := by omega
        simp [hcount, List.replicate_succ, ih hrest]
      · -- From the first default on, every parameter has one.
        have hall := map_some_filterMap_snd fun y hy => hkeeps y hy rfl
        have hcount : (rest.filterMap (·.2)).length = rest.length := by
          simpa using congrArg List.length hall
        simp [hcount, hall]

/-- Pairing the defaults from the right gives back the parameters that have them. -/
theorem rightAligned_of_keepsDefault {xs : List (Node × Option Node)}
    (h : xs.Pairwise KeepsDefault) :
    rightAligned (xs.map (·.1)) (xs.filterMap (·.2)) = xs := by
  rw [rightAligned, List.length_map, replicate_append_filterMap_snd h, List.zip_map']
  exact List.map_id _

namespace Layout

variable (l : Layout)

@[simp]
theorem positionalPairs_signature :
    l.signature.positionalPairs = l.positionalOnly ++ l.positional := by
  rw [Signature.positionalPairs, signature, ← List.map_append]
  exact rightAligned_of_keepsDefault l.defaultsLast

@[simp]
theorem keywordPairs_signature : l.signature.keywordPairs = l.keywordOnly := by
  rw [Signature.keywordPairs, signature, List.zip_map']
  exact List.map_id _

/-- The signature of a layout is written as its parameters. -/
theorem written_signature : l.signature.written = l.parameters := by
  have hcount : l.signature.positionalOnly.length = l.positionalOnly.length := List.length_map _
  rw [Signature.written, positionalPairs_signature, keywordPairs_signature, hcount,
    List.take_left, List.drop_left]
  simp [parameters, leading, trailing, signature]

end Layout

/-! ## Accepted lists -/

/-- A list of single pieces that is accepted can be read from the node that it makes: each
parameter has the default that it was written with, and all parameters stand in their order
again. -/
theorem signature?_of_apply_parameterList (options : Options) (position : Position)
    {pieces : List Reduced} (hpieces : ∀ piece ∈ pieces, piece.isPiece) {result : Reduced}
    (hok : apply options .parameterList position pieces = .ok result) :
    ∃ n s, result = .node n ∧ n.signature? = some s ∧
      s.defaults.length ≤ (s.positionalOnly ++ s.positional).length ∧
      s.keywordDefaults.length = s.keywordOnly.length ∧
      s.positionalPairs = plainsOf (beforeStar (parametersOf pieces)) ∧
      s.keywordPairs = plainsOf (afterStar (parametersOf pieces)) ∧
      s.written = parametersOf pieces := by
  obtain ⟨horder, rfl⟩ := (apply_parameterList_iff hpieces).mp hok
  obtain ⟨l, hl, hbare, -⟩ := Layout.exists_of_orderly horder
  rw [argumentsOf, ← hl, l.ofParameters_parameters]
  refine ⟨_, l.signature, rfl, Signature.signature?_fields ?_ ?_ position, ?_, ?_, ?_, ?_,
    l.written_signature⟩
  · intro hstar
    simpa [Layout.signature] using hbare hstar
  · intro hstar
    simpa [Layout.signature] using l.starred hstar
  · simpa [Layout.signature] using List.length_filterMap_le _ (l.positionalOnly ++ l.positional)
  · simp [Layout.signature]
  · rw [l.positionalPairs_signature, l.plainsOf_beforeStar]
  · rw [l.keywordPairs_signature, l.plainsOf_afterStar]

/-- The parameters `a, /, b, c=0, *rest, d, e=0, **kw` are read from their node. -/
theorem signature?_of_apply_parameterList_mixed :
    ∃ n s, apply .default .parameterList .unknown mixedParameters = .ok (.node n) ∧
      n.signature? = some s ∧
      s.positionalPairs =
        [(plainName "a", none), (plainName "b", none), (plainName "c", some zeroLiteral)] ∧
      s.keywordPairs = [(plainName "d", none), (plainName "e", some zeroLiteral)] ∧
      s.written = parametersOf mixedParameters := by
  have hok : apply .default .parameterList .unknown mixedParameters =
      .ok (.node (argumentsOf (parametersOf mixedParameters) .unknown)) :=
    (apply_parameterList_iff isPiece_mixedParameters).mpr ⟨orderly_mixedParameters, rfl⟩
  obtain ⟨n, s, hresult, hread, -, -, hpositional, hkeyword, hwritten⟩ :=
    signature?_of_apply_parameterList .default .unknown isPiece_mixedParameters hok
  rw [hresult] at hok
  exact ⟨n, s, hok, hread, hpositional, hkeyword, hwritten⟩

end TreeLowering
