/-
# Accepted parameter lists

A parameter list is accepted exactly when its parameters are in order, and then its node is
the one that they spell. A function and a lambda accept the same lists in a group that the
grammar leaves without a rule.
-/

import TreeLowering.Proofs.Parameters.Order
import TreeLowering.Proofs.Reduction.Places
import TreeLowering.Proofs.Reduction.Transform

namespace TreeLowering

open TreeLowering.Lowering TreeLowering.Parameter TreeLowering.Reduced

variable {options : Options} {position range : Position} {pieces : List Reduced}
  {result : Reduced}

/-! ## Handlers -/

theorem parameterList_eq (r : Reduction) :
    parameterList r pieces =
      (Signature.ofPieces pieces >>= fun s => s.build r.position).map .node := by
  rw [parameterList]
  cases Signature.ofPieces pieces <;> rfl

/-- A group of pieces makes a signature like the pieces themselves. -/
theorem signatureNode_fragment (group : String) :
    signatureNode position (some (.fragment group pieces range)) =
      Signature.ofPieces pieces >>= fun s => s.build position := by
  have hgroup : Signature.ofPieces [.fragment group pieces range] = Signature.ofPieces pieces := by
    rw [Signature.ofPieces, Signature.addPieces_singleton, Signature.add_fragment rfl]
    rfl
  rw [signatureNode, hgroup]

theorem functionHeader_fragment (group : String) (returns : Option Node) :
    functionHeader position (.fragment group pieces range :: returns.toList.map .node) =
      (Signature.ofPieces pieces >>= fun s => s.build position).map fun args =>
        (args, returns) := by
  rw [functionHeader_eq, List.head?_cons]
  simp only [parametersAndReturns_eq, List.getElem?_cons_zero, signatureNode_fragment]
  cases Signature.ofPieces pieces >>= fun s => s.build position with
  | error e => rfl
  | ok args => cases returns <;> rfl

/-- The node of a function with given parameters. -/
def functionNode (name : String) (args : Node) (body : List Node) (returns : Option Node)
    (position : Position) : Node :=
  .mk .functionDef [("name", .text name), ("args", .node args), ("body", .list body),
    ("decorator_list", .list []), ("returns", .ofOption returns)] position

theorem functionDefinition_fragment {r : Reduction} {name body : Reduced} {id : String}
    {statements : List Node} (hname : identifier "function name" (some name) = .ok id)
    (hbody : block "function body" (some body) = .ok statements) (group : String)
    (returns : Option Node) :
    functionDefinition r
        (name :: (.fragment group pieces range :: returns.toList.map .node ++ [body])) =
      (Signature.ofPieces pieces >>= fun s => s.build r.position).map fun args =>
        .node (functionNode id args statements returns r.position) := by
  rw [functionDefinition_eq]
  simp only [List.getElem?_cons_zero, hname, List.drop_succ_cons, List.drop_zero,
    List.getLast?_concat, hbody, List.dropLast_concat, functionHeader_fragment]
  cases Signature.ofPieces pieces >>= fun s => s.build r.position with
  | error e => rfl
  | ok args => rfl

theorem lambda_fragment {r : Reduction} (group : String) (body : Node) :
    lambda r [.fragment group pieces range, .node body] =
      (Signature.ofPieces pieces >>= fun s => s.build r.position).map fun args =>
        .node (.mk .lambda [("args", .node args), ("body", .node body)] r.position) := by
  rw [lambda_eq]
  simp only [List.getLast?_cons_cons, List.getLast?_singleton, expectNode, List.dropLast_cons_cons,
    List.dropLast_singleton, List.getElem?_cons_zero, signatureNode_fragment]
  cases Signature.ofPieces pieces >>= fun s => s.build r.position with
  | error e => rfl
  | ok args => rfl

/-! ## Acceptance -/

theorem map_build_eq_ok_iff (hpieces : ∀ piece ∈ pieces, piece.isPiece) {f : Node → Reduced} :
    (Signature.ofPieces pieces >>= fun s => s.build position).map f = .ok result ↔
      Orderly (parametersOf pieces) ∧
        result = f (argumentsOf (parametersOf pieces) position) := by
  constructor
  · intro h
    obtain ⟨n, hn, rfl⟩ := exists_of_map_eq_ok h
    obtain ⟨horder, rfl⟩ := (ofPieces_build_eq_ok_iff hpieces).mp hn
    exact ⟨horder, rfl⟩
  · rintro ⟨horder, rfl⟩
    rw [(ofPieces_build_eq_ok_iff hpieces).mpr ⟨horder, rfl⟩]
    rfl

theorem apply_parameterList_iff (hpieces : ∀ piece ∈ pieces, piece.isPiece) :
    apply options .parameterList position pieces = .ok result ↔
      Orderly (parametersOf pieces) ∧
        result = .node (argumentsOf (parametersOf pieces) position) := by
  rw [apply_eq_ok_iff]
  show parameterList _ pieces = _ ↔ _
  rw [parameterList_eq, map_build_eq_ok_iff hpieces]

/-- A list of single pieces is accepted exactly when its parameters are in order, and it makes
the node that they spell. So does a group of them as the parameters of a function, with or
without an annotation of what it returns, and of a lambda. -/
theorem apply_parameterList_eq_ok_iff (options : Options) (position : Position)
    {pieces : List Reduced} (hpieces : ∀ piece ∈ pieces, piece.isPiece) :
    (∀ result, apply options .parameterList position pieces = .ok result ↔
      Orderly (parametersOf pieces) ∧
        result = .node (argumentsOf (parametersOf pieces) position)) ∧
    (∀ (group : String) (range : Position) (name body : Reduced) (returns : Option Node)
      (id : String) (statements : List Node),
      identifier "function name" (some name) = .ok id →
      block "function body" (some body) = .ok statements →
      ∀ result, apply options .functionDef position
          (name :: (.fragment group pieces range :: returns.toList.map .node ++ [body])) =
            .ok result ↔
        Orderly (parametersOf pieces) ∧ result = .node (functionNode id
          (argumentsOf (parametersOf pieces) position) statements returns position)) ∧
    (∀ (group : String) (range : Position) (body : Node) (result : Reduced),
      apply options .lambda position [.fragment group pieces range, .node body] = .ok result ↔
        Orderly (parametersOf pieces) ∧ result = .node (.mk .lambda
          [("args", .node (argumentsOf (parametersOf pieces) position)), ("body", .node body)]
          position)) := by
  refine ⟨fun _ => apply_parameterList_iff hpieces, ?_, fun group range body result => ?_⟩
  · intro group range name body returns id statements hname hbody result
    rw [apply_eq_ok_iff]
    show functionDefinition _ _ = _ ↔ _
    rw [functionDefinition_fragment hname hbody, map_build_eq_ok_iff hpieces]
  · rw [apply_eq_ok_iff]
    show lambda _ _ = _ ↔ _
    rw [lambda_fragment, map_build_eq_ok_iff hpieces]

/-- A parameter without annotation. -/
def plainName (name : String) : Node :=
  .mk .parameter [("arg", .text name), ("annotation", .absent)] .unknown

/-- The number zero. -/
def zeroLiteral : Node :=
  .mk .constant [("value", .scalar (.int 0))] .unknown

/-- The parameters `a, /, b, c=0, *rest, d, e=0, **kw`. -/
def mixedParameters : List Reduced := [
  .node (plainName "a"), .parameter .slash, .node (plainName "b"),
  .token ⟨"COMMA", ",", .unknown⟩, .parameter (.plain (plainName "c") (some zeroLiteral)),
  .parameter (.star (some (plainName "rest"))), .absent, .node (plainName "d"),
  .parameter (.plain (plainName "e") (some zeroLiteral)),
  .parameter (.mapping (plainName "kw"))]

theorem isPiece_mixedParameters : ∀ piece ∈ mixedParameters, piece.isPiece := by
  simp [mixedParameters, isPiece]

theorem orderly_mixedParameters : Orderly (parametersOf mixedParameters) where
  named := by decide
  oneSlash := by decide
  slashAfterPlain _ := ⟨_, List.mem_cons_self, rfl⟩
  slashBeforeMarks := by decide
  oneStar := by decide
  plainAfterBareStar _ := ⟨_, List.mem_cons_self, rfl⟩
  oneMapping := by decide
  nothingAfterMapping := by decide
  defaultsLast := by decide

/-- A lambda has these parameters, and they are in order. -/
theorem apply_parameterList_eq_ok_iff_mixed :
    (∀ piece ∈ mixedParameters, piece.isPiece) ∧ Orderly (parametersOf mixedParameters) ∧
      apply .default .lambda .unknown [.fragment "varargslist" mixedParameters .unknown,
          .node zeroLiteral] =
        .ok (.node (.mk .lambda [("args", .node (.mk .arguments [
          ("posonlyargs", .list [plainName "a"]), ("args", .list [plainName "b", plainName "c"]),
          ("vararg", .node (plainName "rest")),
          ("kwonlyargs", .list [plainName "d", plainName "e"]),
          ("kw_defaults", .sparse [none, some zeroLiteral]), ("kwarg", .node (plainName "kw")),
          ("defaults", .list [zeroLiteral])] .unknown)), ("body", .node zeroLiteral)]
          .unknown)) := by
  obtain ⟨-, -, hlambda⟩ :=
    apply_parameterList_eq_ok_iff .default .unknown isPiece_mixedParameters
  exact ⟨isPiece_mixedParameters, orderly_mixedParameters,
    (hlambda _ _ _ _).mpr ⟨orderly_mixedParameters, rfl⟩⟩

end TreeLowering
