/-
# Literals, names and accesses

What the handlers of literals and of simple expressions do with the nodes of their
parts. Every handler takes its parts in turn, so its law puts the nodes of all parts
together again from those of the parts taken.
-/

import TreeLowering.Lowering.Expression
import TreeLowering.Lowering.Literal
import TreeLowering.Proofs.Reduction.Places
import TreeLowering.Proofs.Reduction.Rules

namespace TreeLowering.Lowering

open TreeLowering.Reduced

variable {r : Reduction} {items : List Reduced}

/-! ## Literals -/

/-- A constant is built out of parts without nodes. -/
theorem constant_yields {value : Scalar} (literal : value.isLiteral)
    (hgiven : rootsOf items = []) : Yields (constant r value) (Reduces r items) := by
  rw [constant, r.build_of_slots rfl]
  exact .ok (.built (.constant literal hgiven))

theorem expectWord_yields (word : String) (item : Option Reduced) :
    Yields (expectWord word item) fun _ => rootsOf item.toList = [] := by
  rw [expectWord.eq_def]
  split
  · exact .ok rfl
  · split
    · exact .ok rfl
    · exact .error trivial
  · exact .error trivial

theorem keywordConstant_yields : Yields (keywordConstant r items) (Reduces r items) := by
  rw [keywordConstant_eq]
  apply Yields.bind (expectWord_yields _ _)
  intro _ hword
  apply Yields.bind (noMore_yields _)
  intro _ hrest
  refine constant_yields ?_ (rootsOf_first hword (rootsOf_end hrest))
  split <;> rfl

theorem numberToken_yields : ∀ item : Reduced,
    Yields (numberToken item) fun _ => item.roots = []
  | .token _ => .ok rfl
  | .fragment _ [child] _ => by
      rw [numberToken]
      exact (numberToken_yields child).mono fun _ h => by simpa using h
  | .fragment _ [] _ => .error trivial
  | .fragment _ (_ :: _ :: _) _ => .error trivial
  | .node _ => .error trivial
  | .nodes _ => .error trivial
  | .operator _ => .error trivial
  | .absent => .error trivial
  | .pair _ _ => .error trivial
  | .unpack _ => .error trivial
  | .dotted _ => .error trivial
  | .level _ => .error trivial
  | .clause _ => .error trivial
  | .parameter _ => .error trivial

theorem expectNumber_yields (item : Option Reduced) :
    Yields (expectNumber item) fun _ => rootsOf item.toList = [] := by
  cases item with
  | none => exact .error trivial
  | some part => exact (numberToken_yields part).mono fun _ h => by simpa using h

theorem decodeNumber_yields (floats : FloatLiterals) (token : Token) :
    Yields (decodeNumber floats token) fun value => value.isLiteral := by
  have hfraction : ∀ digits value, decodeFraction? floats digits = some value →
      value.isLiteral := by
    intro digits value hvalue
    obtain ⟨x, _, hx⟩ := Option.bind_eq_some_iff.mp hvalue
    cases floats with
    | preserve =>
        cases hx
        rfl
    | truncate =>
        dsimp only at hx
        split at hx <;> cases hx
        rfl
  rw [decodeNumber]
  split
  case h_5 =>
    split
    · rename_i hvalue
      exact .ok (hfraction _ _ hvalue)
    · exact .error trivial
  case h_6 => exact .error trivial
  all_goals
    dsimp only
    split
    · exact .ok rfl
    · exact .error trivial

theorem number_yields : Yields (number r items) (Reduces r items) := by
  rw [number_eq]
  apply Yields.bind (expectNumber_yields _)
  intro token htoken
  apply Yields.bind (noMore_yields _)
  intro _ hrest
  apply Yields.bind (decodeNumber_yields _ _)
  intro value hvalue
  exact constant_yields hvalue (rootsOf_first htoken (rootsOf_end hrest))

theorem expectToken_yields (what : String) (item : Option Reduced) :
    Yields (expectToken what item) fun _ => rootsOf item.toList = [] := by
  rw [expectToken.eq_def]
  split
  · exact .ok rfl
  · exact .error trivial

theorem stripDelimiters_yields (literal : String) :
    Yields (stripDelimiters literal) fun _ => True := by
  rw [stripDelimiters]
  split
  · exact .ok trivial
  · exact .error trivial

theorem string_yields : Yields (string r items) (Reduces r items) := by
  rw [string_eq]
  apply Yields.bind (expectToken_yields _ _)
  intro token htoken
  apply Yields.bind (noMore_yields _)
  intro _ hrest
  apply Yields.bind (stripDelimiters_yields _)
  intro body _
  exact constant_yields rfl (rootsOf_first htoken (rootsOf_end hrest))

theorem stringText_yields (item : Reduced) : Yields (stringText item) fun _ => True := by
  rw [stringText.eq_def]
  split
  · split
    · split
      · exact .ok trivial
      · exact .error trivial
    · exact .error trivial
  · exact .error trivial

/-- The constants that are joined are used up. -/
theorem stringConcat_yields (hrule : r.rule = .stringConcat) :
    Yields (stringConcat r items) (Reduces r items) := by
  rw [stringConcat]
  apply Yields.bind (.mapM fun item _ => stringText_yields item)
  intro texts _
  rw [constant, r.build_of_slots rfl]
  exact .ok (.built (.joined hrule _))

/-! ## Names and expressions -/

theorem nameRef_yields : Yields (nameRef r items) (Reduces r items) := by
  rw [nameRef_eq]
  apply Yields.bind ((identifier_yields _ _).and (identifier_spells _ _))
  intro id ⟨hid, hspelled⟩
  apply Yields.bind (noMore_yields _)
  intro _ hrest
  rw [r.build_of_slots rfl]
  refine .ok (.built (.name id ?_ (exists_spells_of_getElem? hspelled)))
  rw [rootsOf_first rfl (rootsOf_end hrest)]
  exact hid.append names_nil

theorem starred_yields : Yields (starred r items) (Reduces r items) := by
  rw [starred_eq]
  apply Yields.bind (expectNode_yields _ _)
  intro value hvalue
  apply Yields.bind (noMore_yields _)
  intro _ hrest
  rw [r.build_of_slots rfl]
  exact .ok (.built (.starred (rootsOf_first hvalue (rootsOf_end hrest))))

theorem conditional_yields : Yields (conditional r items) (Reduces r items) := by
  rw [conditional_eq]
  apply Yields.bind (expectNode_yields _ _)
  intro body hbody
  apply Yields.bind (expectNode_yields _ _)
  intro test htest
  apply Yields.bind (expectNode_yields _ _)
  intro orelse horelse
  apply Yields.bind (noMore_yields _)
  intro _ hrest
  have hgiven :=
    rootsOf_first hbody (rootsOf_drop htest (rootsOf_drop horelse (rootsOf_end hrest)))
  rw [r.build_of_slots rfl]
  exact .ok (.built (.conditional hgiven))

theorem namedExpression_yields (h : FollowSchema items) :
    Yields (namedExpression r items) (Reduces r items) := by
  rw [namedExpression_eq]
  apply Yields.bind (expectNode_yields _ _)
  intro target htarget
  apply Yields.bind ((h.part 0).bind_yields htarget)
  intro place hplace
  apply Yields.bind (expectNode_yields _ _)
  intro value hvalue
  apply Yields.bind (noMore_yields _)
  intro _ hrest
  have hgiven := rootsOf_first htarget (rootsOf_drop hvalue (rootsOf_end hrest))
  rw [r.build_of_slots rfl]
  exact .ok (.built (.namedExpr hgiven hplace))

theorem awaitExpression_yields : Yields (awaitExpression r items) (Reduces r items) := by
  rw [awaitExpression_eq]
  apply Yields.bind (expectNode_yields _ _)
  intro value hvalue
  apply Yields.bind (noMore_yields _)
  intro _ hrest
  have hgiven := rootsOf_first hvalue (rootsOf_end hrest)
  rw [r.build_of_slots rfl]
  exact .ok (.built (.requiredValue (by simp) (hgiven ▸ .single value)))

/-! ## Attributes -/

theorem attributeOf_yields (position : Position) (value : Node) (attr : String) :
    Yields (attributeOf position value attr) fun link =>
      link = .mk .attribute (accessFields value attr .read) position := by
  rw [attributeOf, Node.build_of_slots rfl]
  exact .ok rfl

theorem attributeAccess_yields : Yields (attributeAccess r items) (Reduces r items) := by
  rw [attributeAccess_eq]
  apply Yields.bind (expectNode_yields _ _)
  intro value hvalue
  apply Yields.bind ((identifier_yields _ _).and (identifier_spells _ _))
  intro attr ⟨hattr, hspelled⟩
  apply Yields.bind (noMore_yields _)
  intro _ hrest
  have hgiven := rootsOf_first hvalue (rootsOf_drop rfl (rootsOf_end hrest))
  apply (attributeOf_yields _ _ _).map
  intro link hlink
  subst hlink
  have hsource := exists_spells_of_getElem? hspelled
  exact .built (.access attr (hattr.append names_nil) hgiven hsource)

theorem chainStep_yields (item : Reduced) : Yields (chainStep item) fun _ => True := by
  rw [chainStep.eq_def]
  split
  · exact .ok trivial
  · split
    · exact .ok trivial
    · exact .error trivial
  · exact .error trivial

/-- The links of a chain stand where a step among the given parts puts them. -/
theorem attributeLinks_yields {base : Node} (hrule : r.rule = .attrChain)
    (hbase : base ∈ rootsOf items) (chain : Node) {steps : List Reduced}
    (hsteps : ∀ item ∈ steps, item ∈ items) :
    Yields (attributeLinks r base.position chain steps)
      (Linked (Places r items .attribute) chain) := by
  induction steps generalizing chain with
  | nil => exact .ok .base
  | cons item rest ih =>
      obtain ⟨hitem, hrest⟩ := List.forall_mem_cons.mp hsteps
      rw [attributeLinks]
      apply Yields.bind (chainStep_yields item).and_eq
      intro (attr, step) ⟨_, htaken⟩
      apply Yields.bind (attributeOf_yields _ _ _)
      intro link hlink
      subst hlink
      have hplace := Places.link hrule hbase hitem htaken rest.isEmpty
      exact (ih _ hrest).mono fun last hlast => (Linked.base.link attr hplace).trans hlast

/-- The steps of a chain are used up. -/
theorem attributeChain_yields (hrule : r.rule = .attrChain) :
    Yields (attributeChain r items) (Reduces r items) := by
  rw [attributeChain_eq]
  apply Yields.bind (expectNode_yields _ _)
  intro base hbase
  have hgiven : base ∈ rootsOf items := by
    rw [rootsOf_first hbase rfl]
    exact List.mem_cons_self
  split
  · exact .error trivial
  · have hsteps : ∀ item ∈ items.drop 1, item ∈ items := fun _ => List.mem_of_mem_drop
    exact (attributeLinks_yields hrule hgiven base hsteps).map fun chain hchain =>
      .chained hrule hgiven hchain

/-! ## Subscripts -/

theorem subscript_yields : Yields (subscript r items) (Reduces r items) := by
  rw [subscript_eq]
  apply Yields.bind (expectNode_yields _ _)
  intro value hvalue
  apply Yields.bind (r.expression_yields _ _)
  intro index hindex
  apply Yields.bind (noMore_yields _)
  intro _ hrest
  have hgiven := rootsOf_first hvalue (rootsOf_drop rfl (rootsOf_end hrest))
  rw [List.append_nil] at hgiven
  rw [r.build_of_slots rfl]
  exact .ok (.built (.subscript hgiven hindex))

theorem slice_yields : Yields (slice r items) (Reduces r items) := by
  rw [slice_eq]
  apply Yields.bind (optionalNode_yields _ _)
  intro lower hlower
  apply Yields.bind (optionalNode_yields _ _)
  intro upper hupper
  apply Yields.bind (optionalNode_yields _ _)
  intro step hstep
  apply Yields.bind (noMore_yields _)
  intro _ hrest
  have hgiven :=
    rootsOf_first hlower (rootsOf_drop hupper (rootsOf_drop hstep (rootsOf_end hrest)))
  rw [r.build_of_slots rfl]
  exact .ok (.built (.slice (by simpa using hgiven)))

end TreeLowering.Lowering
