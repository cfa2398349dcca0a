/-
# Like parts

Every way of taking parts out of a reduction treats like parts alike: it takes like nodes
or equal texts from both, or fails on both. So a handler that only takes parts and builds
a node from them cannot tell two runs apart.
-/

import TreeLowering.Proofs.Reduction.Parts
import TreeLowering.Proofs.TwoRuns.Likeness

namespace TreeLowering.Likeness

open TreeLowering.Reduced

variable {L : Likeness} {raw classes : Prop} {α β : Type} {related : α → β → Prop}

/-! ## Places in related lists -/

section Places

variable {items : List α} {others : List β} (h : List.Forall₂ related items others)

include h

theorem rel_getElem? (i : Nat) : Option.Rel related items[i]? others[i]? := by
  induction h generalizing i with
  | nil => exact .none
  | cons hhead _ ih =>
      cases i with
      | zero => exact .some hhead
      | succ i => exact ih i

theorem rel_head? : Option.Rel related items.head? others.head? := by
  rw [List.head?_eq_getElem?, List.head?_eq_getElem?]
  exact rel_getElem? h 0

theorem rel_getLast? : Option.Rel related items.getLast? others.getLast? := by
  rw [List.getLast?_eq_getElem?, List.getLast?_eq_getElem?, h.length_eq]
  exact rel_getElem? h _

theorem forall₂_dropLast : List.Forall₂ related items.dropLast others.dropLast := by
  rw [List.dropLast_eq_take, List.dropLast_eq_take, h.length_eq]
  exact List.forall₂_take _ h

theorem isEmpty_eq : items.isEmpty = others.isEmpty := by
  cases h <;> rfl

/-- Tests that agree on related elements keep related ones. -/
theorem forall₂_filter {p : α → Bool} {q : β → Bool} (htest : ∀ a b, related a b → p a = q b) :
    List.Forall₂ related (items.filter p) (others.filter q) := by
  refine List.rel_filter (fun a b hab => ?_) h
  show p a = true ↔ q b = true
  rw [htest a b hab]

/-- Tests that agree on related elements find related ones. -/
theorem rel_find? {p : α → Bool} {q : β → Bool} (htest : ∀ a b, related a b → p a = q b) :
    Option.Rel related (items.find? p) (others.find? q) := by
  rw [← List.head?_filter, ← List.head?_filter]
  exact rel_head? (forall₂_filter h htest)

end Places

theorem isSome_eq {d : Option α} {e : Option β} (h : Option.Rel related d e) :
    d.isSome = e.isSome := by
  cases h <;> rfl

theorem isNone_eq {d : Option α} {e : Option β} (h : Option.Rel related d e) :
    d.isNone = e.isNone := by
  cases h <;> rfl

theorem forall₂_toList {d : Option α} {e : Option β} (h : Option.Rel related d e) :
    List.Forall₂ related d.toList e.toList := by
  cases h with
  | none => exact .nil
  | some like => exact .cons like .nil

/-! ## Single parts -/

variable {item other : Reduced} {place place' : Option Reduced}
variable {items others : List Reduced}

theorem Parts.describe (h : L.Parts raw classes item other) :
    L.Words item.describe other.describe := by
  intro hnames
  cases h with
  | node like => cases like <;> rfl
  | @nodes ns ms like =>
      show s!"list of {ns.length} nodes" = s!"list of {ms.length} nodes"
      rw [like.length_eq]
  | @token t u text =>
      show s!"token `{t.text}`" = s!"token `{u.text}`"
      rw [text]
  | fragment words =>
      cases words hnames
      rfl
  | _ => rfl

theorem unexpected_like (what : String) (h : Option.Rel (L.Parts raw classes) place place') :
    L.Errors (unexpected what place) (unexpected what place') := by
  cases h with
  | none => exact .same _
  | some like => exact .shape what like.describe

theorem expectNode_like (what : String) (h : Option.Rel (L.Parts raw classes) place place') :
    L.Outcomes L.Nodes (expectNode what place) (expectNode what place') := by
  cases h with
  | none => exact .error (.same _)
  | some like =>
      have hother := unexpected_like what (.some like)
      cases like with
      | node like => exact .ok like
      | _ => exact .error hother

theorem optionalNode_like (what : String) (h : Option.Rel (L.Parts raw classes) place place') :
    L.Outcomes (Option.Rel L.Nodes) (optionalNode what place) (optionalNode what place') := by
  cases h with
  | none => exact .ok .none
  | some like =>
      have hother := unexpected_like what (.some like)
      cases like with
      | absent => exact .ok .none
      | node like => exact .ok (.some like)
      | _ => exact .error hother

theorem unexpected_node_like (what : String) {n m : Node} (h : L.Nodes n m) :
    L.Errors (unexpected what (some (.node n))) (unexpected what (some (.node m))) :=
  have like : L.Answers (.node n) (.node m) := .node h
  unexpected_like what (.some like)

theorem nameText_like (what : String) {n m : Node} (h : L.Nodes n m) :
    L.Outcomes Eq (nameText what n) (nameText what m) := by
  rw [nameText, nameText, h.construct_eq, bind_text?_eq (h.get?_rel "id")]
  by_cases hname : n.construct = .name
  · rw [if_pos hname, if_pos hname]
    cases (m.get? "id").bind Value.text? with
    | none => exact .error (.same _)
    | some id => exact .ok rfl
  · rw [if_neg hname, if_neg hname]
    exact .error (unexpected_node_like what h)

theorem identifier_like (what : String) (h : Option.Rel (L.Parts raw classes) place place') :
    L.Outcomes Eq (identifier what place) (identifier what place') := by
  cases h with
  | none => exact .error (.same _)
  | some like =>
      have hother := unexpected_like what (.some like)
      cases like with
      | token text => exact .ok text
      | node like => exact nameText_like what like
      | _ => exact .error hother

theorem optionalIdentifier_like (what : String)
    (h : Option.Rel (L.Parts raw classes) place place') :
    L.Outcomes Eq (optionalIdentifier what place) (optionalIdentifier what place') := by
  have hname : L.Outcomes Eq ((identifier what place).map some)
      ((identifier what place').map some) :=
    (identifier_like what h).map fun _ _ => congrArg some
  cases h with
  | none => exact .ok rfl
  | some like =>
      cases like with
      | absent => exact .ok rfl
      | _ => exact hname

theorem noMore_like (h : L.PartLists raw classes items others) :
    L.Outcomes Eq (noMore items) (noMore others) := by
  cases h with
  | nil => exact .ok rfl
  | cons hextra => exact .error (.shape _ hextra.describe)

theorem Parts.isToken_eq (h : L.Parts raw classes item other) : item.isToken = other.isToken := by
  cases h <;> rfl

theorem Parts.isFiller_eq (h : L.Parts raw classes item other) :
    item.isFiller = other.isFiller := by
  cases h <;> rfl

theorem Parts.operator?_eq (h : L.Parts raw classes item other) :
    item.operator? = other.operator? := by
  cases h <;> rfl

theorem onlyTokens_like (what : String) (h : L.PartLists raw classes items others) :
    L.Outcomes Eq (onlyTokens what items) (onlyTokens what others) := by
  have hextra := rel_find? h fun (a b : Reduced) (like : L.Parts raw classes a b) =>
    congrArg not like.isToken_eq
  rw [onlyTokens, onlyTokens]
  rcases rel_cases hextra with ⟨hv, hw⟩ | ⟨v, w, hv, hw, like⟩
  · rw [hv, hw]
    exact .ok rfl
  · rw [hv, hw]
    exact .error (.shape what like.describe)

/-! ## Gathered nodes -/

mutual

/-- Like nodes are gathered from like parts. -/
theorem gatherItem_like : ∀ (item : Reduced) {other : Reduced}, L.Parts raw classes item other →
    L.Outcomes L.NodeLists (gatherItem item) (gatherItem other)
  | .node _, _, .node like => .ok (.cons like .nil)
  | .nodes _, _, .nodes like => .ok like
  | .fragment _ children _, _, .fragment _ like _ _ => by
      rw [gatherItem, gatherItem]
      exact gather_like children like
  | .token _, _, .token .. => .ok .nil
  | .absent, _, .absent _ => .ok .nil
  | .operator op, _, .operator _ => .error (.same _)
  | .pair _ _, _, .pair .. => .error (.same _)
  | .unpack _, _, .unpack _ => .error (.same _)
  | .dotted _, _, .dotted _ => .error (.same _)
  | .level _, _, .level _ => .error (.same _)
  | .clause _, _, h => by
      have hother := h.describe
      cases h <;> exact .error (.unrecognized _ hother)
  | .parameter _, _, h => by
      have hother := h.describe
      cases h <;> exact .error (.unrecognized _ hother)

theorem gather_like : ∀ (items : List Reduced) {others : List Reduced},
    L.PartLists raw classes items others → L.Outcomes L.NodeLists (gather items) (gather others)
  | [], _, .nil => .ok .nil
  | item :: rest, _, .cons hitem hrest => by
      rw [gather_cons, gather_cons]
      apply (gatherItem_like item hitem).bind
      intro _ _ hfirst
      apply (gather_like rest hrest).bind
      intro _ _ hothers
      exact .ok (List.rel_append hfirst hothers)

end

mutual

/-- Commas stand in the same places of like parts. -/
theorem hasComma_eq : ∀ (item : Reduced) {other : Reduced}, L.Parts raw classes item other →
    item.hasComma = other.hasComma
  | .token _, _, .token text .. => by rw [hasComma, hasComma, text]
  | .fragment _ children _, _, .fragment _ like _ _ => by
      rw [hasComma, hasComma]
      exact anyComma_eq children like
  | .node _, _, .node _ => rfl
  | .nodes _, _, .nodes _ => rfl
  | .absent, _, .absent _ => rfl
  | .operator _, _, .operator _ => rfl
  | .pair _ _, _, .pair .. => rfl
  | .unpack _, _, .unpack _ => rfl
  | .dotted _, _, .dotted _ => rfl
  | .level _, _, .level _ => rfl
  | .clause _, _, h => by cases h <;> rfl
  | .parameter _, _, h => by cases h <;> rfl

theorem anyComma_eq : ∀ (items : List Reduced) {others : List Reduced},
    L.PartLists raw classes items others → anyComma items = anyComma others
  | [], _, .nil => rfl
  | item :: rest, _, .cons hitem hrest => by
      rw [anyComma, anyComma, hasComma_eq item hitem, anyComma_eq rest hrest]

end

theorem allOf_like (construct : Construct) (what : String) {ns ms : List Node}
    (h : L.NodeLists ns ms) :
    L.Outcomes L.NodeLists (allOf construct what ns) (allOf construct what ms) := by
  have hstray := rel_find? h fun (n m : Node) (like : L.Nodes n m) =>
    congrArg (fun kind => decide (kind ≠ construct)) like.construct_eq.symm
  rw [allOf, allOf, isEmpty_eq h]
  by_cases hempty : ms.isEmpty
  · rw [if_pos hempty, if_pos hempty]
    exact .error (.same _)
  · rw [if_neg hempty, if_neg hempty]
    rcases rel_cases hstray with ⟨hv, hw⟩ | ⟨v, w, hv, hw, like⟩
    · rw [hv, hw]
      exact .ok h
    · rw [hv, hw]
      exact .error (unexpected_node_like what like)

theorem block_like (what : String) (h : Option.Rel (L.Parts raw classes) place place') :
    L.Outcomes L.NodeLists (block what place) (block what place') := by
  cases h with
  | none => exact .error (.same _)
  | some like =>
      have hother := unexpected_like what (.some like)
      have hnodes := gatherItem_like _ like
      cases like with
      | node like => exact .ok (.cons like .nil)
      | nodes like => exact .ok like
      | fragment => exact hnodes
      | _ => exact .error hother

theorem elseBlock_like (h : Option.Rel (L.Parts raw classes) place place') :
    L.Outcomes L.NodeLists (elseBlock place) (elseBlock place') := by
  have hblock := block_like "else block" h
  cases h with
  | none => exact .ok .nil
  | some like =>
      cases like with
      | absent => exact .ok .nil
      | otherwise like => exact .ok like
      | _ => exact hblock

/-! ## Nodes of the event -/

variable {r s : Reduction} {fields others' : List (String × Value)} {construct : Construct}

theorem node_like (h : L.Events r s) (kind : construct ≠ .constant)
    (hfields : L.Fields fields others') :
    L.Outcomes L.Nodes (r.node construct fields) (s.node construct others') :=
  build_like kind hfields h.range

/-- Like fields make like nodes. A constant is told from the rest, since the values of
constants are related and those in other fields are the same. -/
theorem reduction_build_like (h : L.Events r s) (kind : construct ≠ .constant)
    (hfields : L.Fields fields others') :
    L.Outcomes (L.Parts raw classes) (r.build construct fields) (s.build construct others') :=
  (node_like h kind hfields).map fun _ _ => .node

/-- Where nothing may be left over, like parts are followed by like nodes. -/
theorem build_at_end_like (h : L.Events r s) (kind : construct ≠ .constant)
    (hrest : L.PartLists raw classes items others) (hfields : L.Fields fields others') :
    L.Outcomes L.Answers (noMore items >>= fun _ => r.build construct fields)
      (noMore others >>= fun _ => s.build construct others') := by
  apply (noMore_like hrest).bind
  intro _ _ _
  exact reduction_build_like h kind hfields

theorem constant_like (h : L.Events r s) {v w : Scalar} (hvalue : L.literals r.position v w) :
    L.Outcomes (L.Parts raw classes) (r.build .constant [("value", .scalar v)])
      (s.build .constant [("value", .scalar w)]) :=
  .ok (.node (.constant hvalue h.range))

theorem tuple_like (h : L.Events r s) {ns ms : List Node} (hnodes : L.NodeLists ns ms) :
    L.Outcomes L.Nodes (r.tuple ns) (s.tuple ms) :=
  node_like h nofun (.cons _ (.list hnodes) (.cons _ (.scalar _) .nil))

theorem bareList_like (h : L.Events r s) (what : String) (hitem : L.Parts raw classes item other) :
    L.Outcomes L.Nodes (r.bareList what item) (s.bareList what other) := by
  rw [Reduction.bareList, Reduction.bareList, hasComma_eq item hitem]
  apply (gatherItem_like item hitem).bind
  intro ns ms hnodes
  have htuple := tuple_like h hnodes
  cases hnodes with
  | nil => exact .error (.same _)
  | cons hfirst hrest =>
      cases hrest with
      | nil =>
          dsimp only
          by_cases hcomma : other.hasComma
          · rw [if_pos hcomma, if_pos hcomma]
            exact htuple
          · rw [if_neg hcomma, if_neg hcomma]
            exact .ok hfirst
      | cons => exact htuple

theorem expression_like (h : L.Events r s) (what : String)
    (hplace : Option.Rel (L.Parts raw classes) place place') :
    L.Outcomes L.Nodes (r.expression what place) (s.expression what place') := by
  cases hplace with
  | none => exact .error (.same _)
  | some like =>
      have hother := unexpected_like what (.some like)
      have hlist := bareList_like h what like
      cases like with
      | node like => exact .ok like
      | nodes => exact hlist
      | fragment => exact hlist
      | _ => exact .error hother

end TreeLowering.Likeness
