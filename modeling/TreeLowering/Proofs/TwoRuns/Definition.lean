/-
# Like definitions

The handlers of parameter lists, definitions and decorators answer like parts alike. A
signature grows piece by piece, and the pieces placed so far are like in both runs.
-/

import TreeLowering.Lowering.Definition
import TreeLowering.Proofs.Reduction.Places
import TreeLowering.Proofs.Reduction.Signature
import TreeLowering.Proofs.TwoRuns.Expression

namespace TreeLowering.Likeness

open TreeLowering.Lowering TreeLowering.Reduced

variable {L : Likeness} {raw classes : Prop} {r s : Reduction}
variable {items others : List Reduced} {item other : Reduced} {place place' : Option Reduced}

/-! ## Signatures -/

/-- Signatures with like parameters in the same places. -/
structure Signatures (L : Likeness) (a b : Signature) : Prop where
  positionalOnly : L.NodeLists a.positionalOnly b.positionalOnly
  positional : L.NodeLists a.positional b.positional
  defaults : L.NodeLists a.defaults b.defaults
  star? : Option.Rel (Option.Rel L.Nodes) a.star? b.star?
  keywordOnly : L.NodeLists a.keywordOnly b.keywordOnly
  keywordDefaults : List.Forall₂ (Option.Rel L.Nodes) a.keywordDefaults b.keywordDefaults
  mapping? : Option.Rel L.Nodes a.mapping? b.mapping?

theorem signatures_empty : L.Signatures .empty .empty :=
  ⟨.nil, .nil, .nil, .none, .nil, .nil, .none⟩

theorem checkParameter_like {n m : Node} (h : L.Nodes n m) :
    L.Outcomes Eq (checkParameter n) (checkParameter m) := by
  rw [checkParameter, checkParameter, h.construct_eq]
  split
  · exact .ok rfl
  · exact .error (unexpected_node_like _ h)

namespace Signatures

variable {a b : Signature} {n m : Node} {d e : Option Node}

theorem addPlain (h : L.Signatures a b) (hparameter : L.Nodes n m)
    (hdefault : Option.Rel L.Nodes d e) :
    L.Outcomes L.Signatures (a.addPlain n d) (b.addPlain m e) := by
  rw [Signature.addPlain.eq_def, Signature.addPlain.eq_def, isSome_eq h.star?,
    isEmpty_eq h.defaults]
  apply (checkParameter_like hparameter).bind
  intro _ _ _
  split
  · exact .ok { h with
      keywordOnly := List.rel_append h.keywordOnly (.cons hparameter .nil)
      keywordDefaults := List.rel_append h.keywordDefaults (.cons hdefault .nil) }
  · have hpositional : L.NodeLists (a.positional ++ [n]) (b.positional ++ [m]) :=
      List.rel_append h.positional (.cons hparameter .nil)
    cases hdefault with
    | some hvalue =>
        exact .ok { h with
          positional := hpositional
          defaults := List.rel_append h.defaults (.cons hvalue .nil) }
    | none =>
        dsimp only
        split
        · exact .ok { h with positional := hpositional }
        · exact .error (.same _)

theorem addAll {ns ms : List Node} (h : L.Signatures a b) (hparameters : L.NodeLists ns ms) :
    L.Outcomes L.Signatures (a.addAll ns) (b.addAll ms) := by
  refine Outcomes.foldlM ?_ hparameters h
  intro _ _ _ _ hstate hparameter
  exact hstate.addPlain hparameter .none

theorem addSlash (h : L.Signatures a b) :
    L.Outcomes L.Signatures a.addSlash b.addSlash := by
  rw [Signature.addSlash, Signature.addSlash, isSome_eq h.star?, isEmpty_eq h.positionalOnly,
    isEmpty_eq h.positional]
  split
  · exact .error (.same _)
  · exact .ok { h with positionalOnly := h.positional, positional := .nil }

theorem addStar (h : L.Signatures a b) (hparameter : Option.Rel L.Nodes d e) :
    L.Outcomes L.Signatures (a.addStar d) (b.addStar e) := by
  rw [Signature.addStar.eq_def, Signature.addStar.eq_def, isSome_eq h.star?]
  split
  · exact .error (.same _)
  · cases hparameter with
    | none => exact .ok { h with star? := .some .none }
    | some like =>
        apply (checkParameter_like like).bind
        intro _ _ _
        exact .ok { h with star? := .some (.some like) }

theorem addMapping (h : L.Signatures a b) (hparameter : L.Nodes n m) :
    L.Outcomes L.Signatures (a.addMapping n) (b.addMapping m) := by
  rw [Signature.addMapping, Signature.addMapping]
  apply (checkParameter_like hparameter).bind
  intro _ _ _
  exact .ok { h with mapping? := .some hparameter }

end Signatures

/-- After a double star no piece is taken, whatever it is. -/
theorem closed_like {a b : Signature} (h : L.Signatures a b) {text text' : String}
    (words : L.Words text text') {next next' : Except Error Signature}
    (hnext : L.Outcomes L.Signatures next next') :
    L.Outcomes L.Signatures
      (if a.mapping?.isSome then .error (.shape "nothing after `**` parameter" text) else next)
      (if b.mapping?.isSome then .error (.shape "nothing after `**` parameter" text')
        else next') := by
  rw [isSome_eq h.mapping?]
  split
  · exact .error (.shape _ words)
  · exact hnext

mutual

/-- The next piece is placed alike in like signatures. -/
theorem signature_add_like {a b : Signature} (h : L.Signatures a b) (item : Reduced)
    {other : Reduced} (hitem : L.Parts raw classes item other) :
    L.Outcomes L.Signatures (a.add item) (b.add other) := by
  have words := hitem.describe
  have hother := unexpected_like "parameter" (.some hitem)
  cases hitem with
  | token => exact .ok h
  | absent => exact .ok h
  | fragment _ like =>
      rw [Signature.add, Signature.add]
      exact closed_like h words (signature_addPieces_like h _ like)
  | node like =>
      rw [Signature.add, Signature.add]
      exact closed_like h words (h.addPlain like .none)
  | nodes like =>
      rw [Signature.add, Signature.add]
      exact closed_like h words (h.addAll like)
  | plain like default =>
      rw [Signature.add, Signature.add]
      exact closed_like h words (h.addPlain like default)
  | star like =>
      rw [Signature.add, Signature.add]
      exact closed_like h words (h.addStar like)
  | mapping like =>
      rw [Signature.add, Signature.add]
      exact closed_like h words (h.addMapping like)
  | slash =>
      rw [Signature.add, Signature.add]
      exact closed_like h words h.addSlash
  | _ =>
      simp only [Signature.add]
      exact closed_like h words (.error hother)

/-- The pieces of like lists are placed alike. -/
theorem signature_addPieces_like {a b : Signature} (h : L.Signatures a b) (items : List Reduced)
    {others : List Reduced} (hparts : L.PartLists raw classes items others) :
    L.Outcomes L.Signatures (a.addPieces items) (b.addPieces others) := by
  cases hparts with
  | nil => exact .ok h
  | cons hitem hrest =>
      rw [Signature.addPieces_cons, Signature.addPieces_cons]
      apply (signature_add_like h _ hitem).bind
      intro _ _ hnext
      exact signature_addPieces_like hnext _ hrest

end

theorem ofPieces_like (hparts : L.PartLists raw classes items others) :
    L.Outcomes L.Signatures (Signature.ofPieces items) (Signature.ofPieces others) :=
  signature_addPieces_like signatures_empty items hparts

theorem signature_build_like {a b : Signature} (h : L.Signatures a b) {p q : Position}
    (hrange : L.Ranges p q) : L.Outcomes L.Nodes (a.build p) (b.build q) := by
  have hbare : a.star?.any Option.isNone = b.star?.any Option.isNone := by
    rcases rel_cases h.star? with ⟨hv, hw⟩ | ⟨v, w, hv, hw, like⟩
    · rw [hv, hw]
    · rw [hv, hw]
      exact isNone_eq like
  have hstar : Option.Rel L.Nodes a.star?.join b.star?.join := by
    rcases rel_cases h.star? with ⟨hv, hw⟩ | ⟨v, w, hv, hw, like⟩
    · rw [hv, hw]
      exact .none
    · rw [hv, hw]
      exact like
  rw [Signature.build, Signature.build, hbare, isEmpty_eq h.keywordOnly]
  split
  · exact .error (.same _)
  · exact build_like (show Construct.arguments ≠ .constant by decide)
      (.cons _ (.list h.positionalOnly) (.cons _ (.list h.positional)
        (.cons _ (.ofOption hstar) (.cons _ (.list h.keywordOnly)
          (.cons _ (.sparse h.keywordDefaults) (.cons _ (.ofOption h.mapping?)
            (.cons _ (.list h.defaults) .nil))))))) hrange

/-! ## Parameters -/

theorem signatureNode_like {p q : Position} (hrange : L.Ranges p q)
    (h : Option.Rel (L.Parts raw classes) place place') :
    L.Outcomes L.Nodes (signatureNode p place) (signatureNode q place') := by
  have hempty : L.Outcomes L.Nodes (Signature.empty.build p) (Signature.empty.build q) :=
    signature_build_like signatures_empty hrange
  cases h with
  | none => exact hempty
  | @some item other like =>
      have hother := unexpected_like "parameter list" (.some like)
      have hpieces : L.Outcomes L.Nodes
          (Signature.ofPieces [item] >>= fun signature => signature.build p)
          (Signature.ofPieces [other] >>= fun signature => signature.build q) := by
        apply (ofPieces_like (.cons like .nil)).bind
        intro _ _ hsignature
        exact signature_build_like hsignature hrange
      cases like with
      | absent => exact hempty
      | node like =>
          rw [signatureNode, signatureNode, like.construct_eq]
          split
          · exact .ok like
          · exact hpieces
      | fragment => exact hpieces
      | plain => exact hpieces
      | star => exact hpieces
      | mapping => exact hpieces
      | slash => exact hpieces
      | _ => exact .error hother

section

variable (h : L.Events r s) (hparts : L.PartLists raw classes items others)

include h hparts

theorem plainParameter_like :
    L.Outcomes L.Answers (plainParameter r items) (plainParameter s others) := by
  rw [plainParameter_eq, plainParameter_eq]
  apply (identifier_like _ (rel_getElem? hparts 0)).bind
  rintro arg _ rfl
  apply (optionalNode_like _ (rel_getElem? hparts 1)).bind
  intro _ _ hannotation
  exact build_at_end_like h (by decide) (List.forall₂_drop 2 hparts)
    (.cons _ (.scalar _) (.cons _ (.ofOption hannotation) .nil))

omit h in
theorem defaultParameter_like :
    L.Outcomes L.Answers (defaultParameter r items) (defaultParameter s others) := by
  rw [defaultParameter_eq, defaultParameter_eq]
  apply (expectNode_like _ (rel_getElem? hparts 0)).bind
  intro _ _ hparameter
  apply (expectNode_like _ (rel_getElem? hparts 1)).bind
  intro _ _ hvalue
  apply (noMore_like (List.forall₂_drop 2 hparts)).bind
  intro _ _ _
  exact .ok (.plain hparameter (.some hvalue))

omit h in
theorem starParameter_like :
    L.Outcomes L.Answers (starParameter r items) (starParameter s others) := by
  rw [starParameter_eq, starParameter_eq]
  apply (optionalNode_like _ (rel_getElem? hparts 0)).bind
  intro _ _ hparameter
  apply (noMore_like (List.forall₂_drop 1 hparts)).bind
  intro _ _ _
  exact .ok (.star hparameter)

omit h in
theorem mappingParameter_like :
    L.Outcomes L.Answers (mappingParameter r items) (mappingParameter s others) := by
  rw [mappingParameter_eq, mappingParameter_eq]
  apply (expectNode_like _ (rel_getElem? hparts 0)).bind
  intro _ _ hparameter
  apply (noMore_like (List.forall₂_drop 1 hparts)).bind
  intro _ _ _
  exact .ok (.mapping hparameter)

theorem parameterList_like :
    L.Outcomes L.Answers (parameterList r items) (parameterList s others) := by
  rw [parameterList, parameterList]
  apply (ofPieces_like hparts).bind
  intro _ _ hsignature
  exact (signature_build_like hsignature h.range).map fun _ _ => .node

end

/-! ## Functions and classes -/

theorem isParameterNode_eq {n m : Node} (h : L.Nodes n m) :
    isParameterNode n = isParameterNode m := by
  rw [isParameterNode, isParameterNode, h.construct_eq]

theorem parametersAndReturns_like {p q : Position} (hrange : L.Ranges p q)
    (hparts : L.PartLists raw classes items others) :
    L.Outcomes (fun a b => L.Nodes a.1 b.1 ∧ Option.Rel L.Nodes a.2 b.2)
      (parametersAndReturns p items) (parametersAndReturns q others) := by
  rw [parametersAndReturns_eq, parametersAndReturns_eq]
  apply (signatureNode_like hrange (rel_getElem? hparts 0)).bind
  intro _ _ hargs
  apply (optionalNode_like _ (rel_getElem? hparts 1)).bind
  intro _ _ hreturns
  apply (noMore_like (List.forall₂_drop 2 hparts)).bind
  intro _ _ _
  exact .ok ⟨hargs, hreturns⟩

theorem functionHeader_like {p q : Position} (hrange : L.Ranges p q)
    (hparts : L.PartLists raw classes items others) :
    L.Outcomes (fun a b => L.Nodes a.1 b.1 ∧ Option.Rel L.Nodes a.2 b.2)
      (functionHeader p items) (functionHeader q others) := by
  have hboth := parametersAndReturns_like hrange hparts
  cases hparts with
  | nil => exact hboth
  | cons hitem hrest =>
      cases hitem with
      | node like =>
          rw [functionHeader_eq, functionHeader_eq]
          dsimp only [List.head?_cons]
          rw [isParameterNode_eq like]
          split
          · exact hboth
          · have hnone : Option.Rel (L.Parts raw classes) none none := .none
            apply (signatureNode_like hrange hnone).bind
            intro _ _ hargs
            apply (noMore_like hrest).bind
            intro _ _ _
            exact .ok ⟨hargs, .some like⟩
      | _ => exact hboth

section

variable (h : L.Events r s) (hparts : L.PartLists raw classes items others)

include h hparts

theorem functionDefinition_like :
    L.Outcomes L.Answers (functionDefinition r items)
      (functionDefinition s others) := by
  have hrest := List.forall₂_drop 1 hparts
  rw [functionDefinition_eq, functionDefinition_eq]
  apply (identifier_like _ (rel_getElem? hparts 0)).bind
  rintro name _ rfl
  apply (block_like _ (rel_getLast? hrest)).bind
  intro _ _ hbody
  apply (functionHeader_like h.range (forall₂_dropLast hrest)).bind
  rintro ⟨args, returns⟩ ⟨args', returns'⟩ ⟨hargs, hreturns⟩
  exact reduction_build_like h nofun (.cons _ (.scalar _) (.cons _ (.node hargs)
    (.cons _ (.list hbody) (.cons _ (.list .nil) (.cons _ (.ofOption hreturns) .nil)))))

theorem lambda_like : L.Outcomes L.Answers (lambda r items) (lambda s others) := by
  have hbefore := forall₂_dropLast hparts
  rw [lambda_eq, lambda_eq]
  apply (expectNode_like _ (rel_getLast? hparts)).bind
  intro _ _ hbody
  apply (signatureNode_like h.range (rel_getElem? hbefore 0)).bind
  intro _ _ hargs
  exact build_at_end_like h nofun (List.forall₂_drop 1 hbefore)
    (.cons _ (.node hargs) (.cons _ (.node hbody) .nil))

theorem classDefinition_like :
    L.Outcomes L.Answers (classDefinition r items) (classDefinition s others) := by
  have hrest := List.forall₂_drop 1 hparts
  rw [classDefinition_eq, classDefinition_eq]
  apply (identifier_like _ (rel_getElem? hparts 0)).bind
  rintro name _ rfl
  apply (block_like _ (rel_getLast? hrest)).bind
  intro _ _ hbody
  apply (classifyArguments_like (forall₂_dropLast hrest)).bind
  rintro ⟨bases, keywords⟩ ⟨bases', keywords'⟩ ⟨hbases, hkeywords⟩
  exact reduction_build_like h nofun (.cons _ (.scalar _) (.cons _ (.list hbases)
    (.cons _ (.list hkeywords) (.cons _ (.list hbody) (.cons _ (.list .nil) .nil)))))

end

/-! ## Decorators -/

theorem attributePath_like {p q : Position} (hrange : L.Ranges p q) (path : List (List Char))
    {n m : Node} (hbase : L.Nodes n m) :
    L.Outcomes L.Nodes (attributePath p n path) (attributePath q m path) := by
  induction path generalizing n m with
  | nil => exact .ok hbase
  | cons segment rest ih =>
      have hlink := attributeOf_like hrange hbase (String.ofList segment)
      rw [attributePath, attributePath]
      apply hlink.bind
      intro _ _ hnext
      exact ih hnext

theorem pathReference_like {p q : Position} (hrange : L.Ranges p q) (path : String) :
    L.Outcomes L.Nodes (pathReference p path) (pathReference q path) := by
  rw [pathReference, pathReference]
  split
  · split
    · exact .error (.same _)
    · apply (build_like (nofun : Construct.name ≠ .constant)
        (.cons _ (.scalar _) (.cons _ (.scalar _) .nil)) hrange).bind
      intro _ _ hbase
      exact attributePath_like hrange _ hbase
  · exact .error (.same _)

theorem decoratorReference_like {p q : Position} (hrange : L.Ranges p q)
    (h : Option.Rel (L.Parts raw classes) place place') :
    L.Outcomes L.Nodes (decoratorReference p place) (decoratorReference q place') := by
  cases h with
  | none => exact .error (.same _)
  | some like =>
      have hother := unexpected_like "decorator" (.some like)
      cases like with
      | dotted path => exact pathReference_like hrange path
      | node like => exact .ok like
      | _ => exact .error hother

theorem decorator_like (h : L.Events r s) (hparts : L.PartLists raw classes items others) :
    L.Outcomes L.Answers (decorator r items) (decorator s others) := by
  have hreference := decoratorReference_like h.range (rel_getElem? hparts 0)
  have hend := noMore_like (List.forall₂_drop 2 hparts)
  cases hparts with
  | nil => exact .error (.same _)
  | cons hitem hrest =>
      rw [decorator_eq, decorator_eq]
      apply hreference.bind
      intro _ _ hfunc
      apply hend.bind
      intro _ _ _
      cases hrest with
      | nil => exact .ok (.node hfunc)
      | cons harguments _ =>
          have hcall : L.Outcomes L.Answers (callOf r _ [_]) (callOf s _ [_]) :=
            callOf_like h (.cons harguments .nil) hfunc
          cases harguments with
          | absent => exact .ok (.node hfunc)
          | _ => exact hcall

theorem isDecorable_eq {n m : Node} (h : L.Nodes n m) : isDecorable n = isDecorable m := by
  rw [isDecorable, isDecorable, h.construct_eq]

theorem decorated_like (hparts : L.PartLists raw classes items others) :
    L.Outcomes L.Answers (decorated r items) (decorated s others) := by
  rw [decorated_eq, decorated_eq]
  apply (expectNode_like _ (rel_getLast? hparts)).bind
  intro n m hdefinition
  rw [isDecorable_eq hdefinition, hdefinition.construct_eq]
  split
  · rename_i hdecorable
    apply (gather_like _ (forall₂_dropLast hparts)).bind
    intro _ _ hdecorators
    rw [isEmpty_eq hdecorators]
    split
    · exact .error (.same _)
    · have kind : n.construct ≠ .constant := by
        intro hconstant
        rw [isDecorable, hdefinition.construct_eq, hconstant] at hdecorable
        exact absurd hdecorable (by decide)
      exact (setField_like hdefinition kind _ (.list hdecorators)).map fun _ _ => .node
  · exact .error (.same _)

theorem asyncTwin?_ne_constant {construct twin : Construct}
    (h : construct.asyncTwin? = some twin) : twin ≠ .constant := by
  rintro rfl
  cases construct <;> cases h

theorem asyncStatement_like (h : L.Events r s) (hparts : L.PartLists raw classes items others) :
    L.Outcomes L.Answers (asyncStatement r items) (asyncStatement s others) := by
  rw [asyncStatement_eq, asyncStatement_eq]
  apply (expectNode_like _ (rel_getLast? hparts)).bind
  intro n m hstatement
  apply (onlyTokens_like _ (forall₂_dropLast hparts)).bind
  intro _ _ _
  cases hstatement with
  | constant => exact .error (.same _)
  | @mk construct fields others p q _ content _ =>
      dsimp only [Node.construct, Node.fields]
      split
      · rename_i twin htwin
        exact reduction_build_like h (asyncTwin?_ne_constant htwin) content
      · exact .error (.same _)

end TreeLowering.Likeness
