/-
# Like expressions

The handlers of literals, names, accesses and calls answer like parts alike. Only the
literal of a number is left out, since its value may depend on the class of its token and
on the options.
-/

import TreeLowering.Lowering.Call
import TreeLowering.Lowering.Expression
import TreeLowering.Lowering.Literal
import TreeLowering.Proofs.Reduction.Places
import TreeLowering.Proofs.TwoRuns.Parts

namespace TreeLowering.Likeness

open TreeLowering.Lowering TreeLowering.Reduced

variable {L : Likeness} {raw classes : Prop} {r s : Reduction}
variable {items others : List Reduced} {item other : Reduced} {place place' : Option Reduced}

/-! ## Literals -/

theorem expectWord_like (word : String) (h : Option.Rel (L.Parts raw classes) place place') :
    L.Outcomes Eq (expectWord word place) (expectWord word place') := by
  cases h with
  | none => exact .ok rfl
  | some like =>
      have hother := unexpected_like "keyword literal" (.some like)
      cases like with
      | token text =>
          rw [expectWord, expectWord, text]
          split
          · exact .ok rfl
          · exact .error (.same _)
      | _ => exact .error hother

theorem expectToken_like (what : String) (h : Option.Rel (L.Parts raw classes) place place') :
    L.Outcomes (fun t u => t.text = u.text) (expectToken what place)
      (expectToken what place') := by
  cases h with
  | none => exact .error (.same _)
  | some like =>
      have hother := unexpected_like what (.some like)
      cases like with
      | token text => exact .ok text
      | _ => exact .error hother

/-- Whether constants are texts and which ones is the same in both runs. -/
theorem stringText_like (h : L.Parts raw classes item other) :
    L.Outcomes Eq (stringText item) (stringText other) := by
  have hother := unexpected_like "string constant" (.some h)
  cases h with
  | node like =>
      rw [stringText, stringText, like.construct_eq, bind_text?_eq (like.get?_rel "value")]
      split
      · split
        · exact .ok rfl
        · exact .error (.same _)
      · exact .error hother
  | _ => exact .error hother

section

variable (h : L.Events r s) (hparts : L.PartLists raw classes items others)

include h hparts

theorem keywordConstant_like (hshared : L.shared r.position) :
    L.Outcomes L.Answers (keywordConstant r items) (keywordConstant s others) := by
  rw [keywordConstant_eq, keywordConstant_eq, h.rule]
  apply (expectWord_like _ (rel_getElem? hparts 0)).bind
  intro _ _ _
  apply (noMore_like (List.forall₂_drop 1 hparts)).bind
  intro _ _ _
  refine constant_like h (L.literals_self hshared ?_)
  cases r.rule <;> rfl

theorem string_like (hshared : L.shared r.position) :
    L.Outcomes L.Answers (string r items) (string s others) := by
  rw [string_eq, string_eq]
  apply (expectToken_like _ (rel_getElem? hparts 0)).bind
  intro t u text
  apply (noMore_like (List.forall₂_drop 1 hparts)).bind
  intro _ _ _
  rw [text]
  cases stripDelimiters u.text with
  | error e => exact .error (.same e)
  | ok body => exact constant_like h (L.literals_self hshared rfl)

theorem stringConcat_like (hshared : L.shared r.position) :
    L.Outcomes L.Answers (stringConcat r items) (stringConcat s others) := by
  have htexts : L.Outcomes Eq (items.mapM stringText) (others.mapM stringText) :=
    Outcomes.mapM_eq (fun _ _ like => stringText_like like) hparts
  rw [stringConcat, stringConcat]
  apply htexts.bind
  rintro texts _ rfl
  exact constant_like h (L.literals_self hshared rfl)

/-! ## Names and simple expressions -/

theorem nameRef_like : L.Outcomes L.Answers (nameRef r items) (nameRef s others) := by
  rw [nameRef_eq, nameRef_eq]
  apply (identifier_like _ (rel_getElem? hparts 0)).bind
  rintro id _ rfl
  exact build_at_end_like h nofun (List.forall₂_drop 1 hparts)
    (.cons _ (.scalar _) (.cons _ (.scalar _) .nil))

theorem starred_like : L.Outcomes L.Answers (starred r items) (starred s others) := by
  rw [starred_eq, starred_eq]
  apply (expectNode_like _ (rel_getElem? hparts 0)).bind
  intro _ _ hvalue
  exact build_at_end_like h nofun (List.forall₂_drop 1 hparts)
    (.cons _ (.node hvalue) (.cons _ (.scalar _) .nil))

theorem conditional_like :
    L.Outcomes L.Answers (conditional r items) (conditional s others) := by
  rw [conditional_eq, conditional_eq]
  apply (expectNode_like _ (rel_getElem? hparts 0)).bind
  intro _ _ hbody
  apply (expectNode_like _ (rel_getElem? hparts 1)).bind
  intro _ _ htest
  apply (expectNode_like _ (rel_getElem? hparts 2)).bind
  intro _ _ horelse
  exact build_at_end_like h nofun (List.forall₂_drop 3 hparts)
    (.cons _ (.node htest) (.cons _ (.node hbody) (.cons _ (.node horelse) .nil)))

theorem namedExpression_like :
    L.Outcomes L.Answers (namedExpression r items) (namedExpression s others) := by
  rw [namedExpression_eq, namedExpression_eq]
  apply (expectNode_like _ (rel_getElem? hparts 0)).bind
  intro _ _ hbinding
  apply (bind_like .write hbinding).bind
  intro _ _ htarget
  apply (expectNode_like _ (rel_getElem? hparts 1)).bind
  intro _ _ hvalue
  exact build_at_end_like h nofun (List.forall₂_drop 2 hparts)
    (.cons _ (.node htarget) (.cons _ (.node hvalue) .nil))

theorem awaitExpression_like :
    L.Outcomes L.Answers (awaitExpression r items) (awaitExpression s others) := by
  rw [awaitExpression_eq, awaitExpression_eq]
  apply (expectNode_like _ (rel_getElem? hparts 0)).bind
  intro _ _ hvalue
  exact build_at_end_like h nofun (List.forall₂_drop 1 hparts) (.cons _ (.node hvalue) .nil)

end

/-! ## Attributes -/

theorem attributeOf_like {p q : Position} (hrange : L.Ranges p q) {n m : Node}
    (hvalue : L.Nodes n m) (attr : String) :
    L.Outcomes L.Nodes (attributeOf p n attr) (attributeOf q m attr) := by
  rw [attributeOf, attributeOf]
  exact build_like (nofun : Construct.attribute ≠ .constant)
    (.cons _ (.node hvalue) (.cons _ (.scalar _) (.cons _ (.scalar _) .nil))) hrange

theorem or_rel {v w v' w' : Option Value} (h : Option.Rel (fun a b => a.text? = b.text?) v w)
    (h' : Option.Rel (fun a b => a.text? = b.text?) v' w') :
    Option.Rel (fun a b => a.text? = b.text?) (v.or v') (w.or w') := by
  cases h with
  | none => exact h'
  | some like => exact .some like

/-- Steps of chains have the same names, and stand in the same places if ranges matter. -/
theorem chainStep_like (h : L.Parts raw classes item other) :
    L.Outcomes (fun step step' => step.1 = step'.1 ∧ L.Ranges step.2 step'.2) (chainStep item)
      (chainStep other) := by
  have hother := unexpected_like "attribute step" (.some h)
  cases h with
  | token text _ range => exact .ok ⟨text, range⟩
  | node like =>
      rw [chainStep, chainStep, like.construct_eq,
        bind_text?_eq (or_rel (like.get?_rel "id") (like.get?_rel "attr"))]
      split
      · exact .ok ⟨rfl, like.range⟩
      · exact .error (.same _)
  | _ => exact .error hother

/-- The ranges of links depend on nothing but ranges. -/
theorem linkPosition_like (h : L.Events r s) {start start' step step' : Position}
    (hstart : L.Ranges start start') (hstep : L.Ranges step step') (isLast : Bool) :
    L.Ranges (linkPosition r start step isLast) (linkPosition s start' step' isLast) := by
  intro hranges
  rw [linkPosition, linkPosition, h.range hranges, hstart hranges, hstep hranges]

theorem attributeLinks_like (h : L.Events r s) {start start' : Position}
    (hstart : L.Ranges start start') (hparts : L.PartLists raw classes items others) {n m : Node}
    (hchain : L.Nodes n m) :
    L.Outcomes L.Nodes (attributeLinks r start n items) (attributeLinks s start' m others) := by
  induction hparts generalizing n m with
  | nil => exact .ok hchain
  | cons hitem hrest ih =>
      rw [attributeLinks, attributeLinks, isEmpty_eq hrest]
      apply (chainStep_like hitem).bind
      rintro ⟨attr, step⟩ ⟨_, step'⟩ ⟨rfl, hstep⟩
      apply (attributeOf_like (linkPosition_like h hstart hstep _) hchain attr).bind
      intro _ _ hlink
      exact ih hlink

section

variable (h : L.Events r s) (hparts : L.PartLists raw classes items others)

include h hparts

theorem attributeAccess_like :
    L.Outcomes L.Answers (attributeAccess r items) (attributeAccess s others) := by
  rw [attributeAccess_eq, attributeAccess_eq]
  apply (expectNode_like _ (rel_getElem? hparts 0)).bind
  intro _ _ hvalue
  apply (identifier_like _ (rel_getElem? hparts 1)).bind
  rintro attr _ rfl
  apply (noMore_like (List.forall₂_drop 2 hparts)).bind
  intro _ _ _
  exact (attributeOf_like h.range hvalue attr).map fun _ _ => .node

theorem attributeChain_like :
    L.Outcomes L.Answers (attributeChain r items) (attributeChain s others) := by
  have hsteps := List.forall₂_drop 1 hparts
  rw [attributeChain_eq, attributeChain_eq, isEmpty_eq hsteps]
  apply (expectNode_like _ (rel_getElem? hparts 0)).bind
  intro _ _ hbase
  split
  · exact .error (.same _)
  · exact (attributeLinks_like h hbase.range hsteps hbase).map fun _ _ => .node

/-! ## Subscripts -/

theorem subscript_like :
    L.Outcomes L.Answers (subscript r items) (subscript s others) := by
  rw [subscript_eq, subscript_eq]
  apply (expectNode_like _ (rel_getElem? hparts 0)).bind
  intro _ _ hvalue
  apply (expression_like h _ (rel_getElem? hparts 1)).bind
  intro _ _ hindex
  exact build_at_end_like h nofun (List.forall₂_drop 2 hparts)
    (.cons _ (.node hvalue) (.cons _ (.node hindex) (.cons _ (.scalar _) .nil)))

theorem slice_like : L.Outcomes L.Answers (slice r items) (slice s others) := by
  rw [slice_eq, slice_eq]
  apply (optionalNode_like _ (rel_getElem? hparts 0)).bind
  intro _ _ hlower
  apply (optionalNode_like _ (rel_getElem? hparts 1)).bind
  intro _ _ hupper
  apply (optionalNode_like _ (rel_getElem? hparts 2)).bind
  intro _ _ hstep
  exact build_at_end_like h nofun (List.forall₂_drop 3 hparts)
    (.cons _ (.ofOption hlower) (.cons _ (.ofOption hupper) (.cons _ (.ofOption hstep) .nil)))

/-! ## Calls -/

omit h in
theorem classifyArguments_like :
    L.Outcomes (fun a b => L.NodeLists a.1 b.1 ∧ L.NodeLists a.2 b.2) (classifyArguments items)
      (classifyArguments others) := by
  have hkeyword : ∀ n m, L.Nodes n m → isKeyword n = isKeyword m := fun n m like => by
    rw [isKeyword, isKeyword, like.construct_eq]
  rw [classifyArguments, classifyArguments]
  apply (gather_like items hparts).bind
  intro _ _ hnodes
  exact .ok ⟨forall₂_filter hnodes fun n m like => congrArg not (hkeyword n m like),
    forall₂_filter hnodes hkeyword⟩

theorem callOf_like {n m : Node} (hfunc : L.Nodes n m) :
    L.Outcomes L.Answers (callOf r n items) (callOf s m others) := by
  rw [callOf, callOf]
  apply (classifyArguments_like hparts).bind
  rintro ⟨args, keywords⟩ ⟨args', keywords'⟩ ⟨hargs, hkeywords⟩
  exact reduction_build_like h nofun
    (.cons _ (.node hfunc) (.cons _ (.list hargs) (.cons _ (.list hkeywords) .nil)))

theorem call_like : L.Outcomes L.Answers (call r items) (call s others) := by
  rw [call_eq, call_eq]
  apply (expectNode_like _ (rel_getElem? hparts 0)).bind
  intro _ _ hfunc
  exact callOf_like h (List.forall₂_drop 1 hparts) hfunc

theorem keywordArgument_like :
    L.Outcomes L.Answers (keywordArgument r items) (keywordArgument s others) := by
  rw [keywordArgument_eq, keywordArgument_eq]
  apply (identifier_like _ (rel_getElem? hparts 0)).bind
  rintro arg _ rfl
  apply (expectNode_like _ (rel_getElem? hparts 1)).bind
  intro _ _ hvalue
  exact build_at_end_like h nofun (List.forall₂_drop 2 hparts)
    (.cons _ (.scalar _) (.cons _ (.node hvalue) .nil))

theorem mappingArgument_like :
    L.Outcomes L.Answers (mappingArgument r items) (mappingArgument s others) := by
  rw [mappingArgument_eq, mappingArgument_eq]
  apply (expectNode_like _ (rel_getElem? hparts 0)).bind
  intro _ _ hvalue
  exact build_at_end_like h nofun (List.forall₂_drop 1 hparts)
    (.cons _ (.scalar _) (.cons _ (.node hvalue) .nil))

omit h in
theorem nodeList_like : L.Outcomes L.Answers (nodeList r items) (nodeList s others) :=
  (gather_like items hparts).map fun _ _ => .nodes

end

end TreeLowering.Likeness
