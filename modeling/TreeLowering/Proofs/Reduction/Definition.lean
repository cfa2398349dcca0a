/-
# Definitions

What the handlers of functions, lambdas and classes do with the nodes of their parts,
and of the rules around a finished statement: decorators replace one slot of it, and the
asynchronous form is built again from its fields.
-/

import TreeLowering.Lowering.Definition
import TreeLowering.Proofs.Reduction.Display
import TreeLowering.Proofs.Reduction.Places
import TreeLowering.Proofs.Reduction.Signature

namespace TreeLowering.Lowering

open TreeLowering.Reduced

variable {r : Reduction} {items : List Reduced}

/-- What the parts between the name and the body of a function say: its parameters and
then its return annotation. -/
def Headed (position : Position) (nodes : List Node) (header : Node × Option Node) : Prop :=
  ∃ signed, Signs position signed header.1 ∧ nodes = signed ++ header.2.toList

theorem parametersAndReturns_yields (position : Position) (items : List Reduced) :
    Yields (parametersAndReturns position items) (Headed position (rootsOf items)) := by
  rw [parametersAndReturns_eq]
  apply Yields.bind (signatureNode_yields position _)
  intro args hargs
  apply Yields.bind (optionalNode_yields _ _)
  intro returns hreturns
  apply Yields.bind (noMore_yields _)
  intro _ hrest
  have hgiven := rootsOf_first rfl (rootsOf_drop hreturns (rootsOf_end hrest))
  rw [List.append_nil] at hgiven
  exact .ok ⟨_, hargs, hgiven⟩

theorem functionHeader_yields (position : Position) (items : List Reduced) :
    Yields (functionHeader position items) (Headed position (rootsOf items)) := by
  rw [functionHeader_eq]
  split
  · rename_i n hhead
    split
    · exact parametersAndReturns_yields position items
    · apply Yields.bind (signatureNode_yields position none)
      intro args hargs
      apply Yields.bind (noMore_yields _)
      intro _ hrest
      have hgiven := rootsOf_first (rootsOf_of_head? hhead) (rootsOf_end hrest)
      exact .ok ⟨[], hargs, hgiven⟩
  · exact parametersAndReturns_yields position items

theorem functionDefinition_yields (hrule : r.rule = .functionDef) :
    Yields (functionDefinition r items) (Reduces r items) := by
  rw [functionDefinition_eq]
  apply Yields.bind (identifier_yields _ _)
  intro name hname
  apply Yields.bind (block_yields _ _)
  intro body hbody
  apply Yields.bind (functionHeader_yields _ _)
  intro (args, returns) hheader
  obtain ⟨signed, hargs, hnodes⟩ := hheader
  have hgiven := rootsOf_first rfl (rootsOf_last hnodes hbody)
  dsimp only
  rw [r.build_of_slots rfl]
  exact .ok (.built (.functionDef name hname hgiven hargs hrule))

theorem lambda_yields : Yields (lambda r items) (Reduces r items) := by
  rw [lambda_eq]
  apply Yields.bind (expectNode_yields _ _)
  intro body hbody
  apply Yields.bind (signatureNode_yields _ _)
  intro args hargs
  apply Yields.bind (noMore_yields _)
  intro _ hrest
  have hhead := rootsOf_first rfl (rootsOf_end hrest)
  rw [List.append_nil] at hhead
  rw [r.build_of_slots rfl]
  exact .ok (.built (.lambda (rootsOf_last hhead hbody) hargs))

theorem classDefinition_yields (hrule : r.rule = .classDef) :
    Yields (classDefinition r items) (Reduces r items) := by
  rw [classDefinition_eq]
  apply Yields.bind (identifier_yields _ _)
  intro name hname
  apply Yields.bind (block_yields _ _)
  intro body hbody
  apply Yields.bind (classifyArguments_yields _)
  intro found hfound
  subst hfound
  have hgiven := rootsOf_first rfl (rootsOf_last rfl hbody)
  dsimp only
  rw [r.build_of_slots rfl]
  exact .ok (.built (.classDef name hname hgiven hrule))

/-! ## Decorators -/

theorem attributePath_yields {places : Position → Prop} {position : Position}
    (hplace : places position) (base : Node) (segments : List (List Char)) :
    Yields (attributePath position base segments) (Linked places base) := by
  induction segments generalizing base with
  | nil => exact .ok .base
  | cons segment rest ih =>
      rw [attributePath, Node.build_of_slots rfl]
      exact (ih _).mono fun last hlast => (Linked.base.link _ hplace).trans hlast

/-- A dotted path is a name and accesses on it, all at the position of the decorator. -/
theorem pathReference_yields {places : Position → Prop} {position : Position}
    (hplace : places position) (path : String) :
    Yields (pathReference position path) fun func =>
      ∃ id, Linked places (.mk .name [("id", .text id), ("ctx", .usage .read)] position) func := by
  rw [pathReference]
  split
  · split
    · exact .error trivial
    · rw [Node.build_of_slots rfl]
      exact (attributePath_yields hplace _ _).mono fun func hfunc => ⟨_, hfunc⟩
  · exact .error trivial

/-- A reference is the node in its part, or made of the path that is spelled there. -/
theorem decoratorReference_yields :
    Yields (decoratorReference r.position items[0]?) fun func =>
      rootsOf items[0]?.toList = [func] ∨ rootsOf items[0]?.toList = [] ∧
        (∃ item ∈ items, item.Spells) ∧ ∃ id, Linked (Places r items .attribute)
          (.mk .name [("id", .text id), ("ctx", .usage .read)] r.position) func := by
  rw [decoratorReference.eq_def]
  split
  · rename_i path hpath
    have hspelled : ∃ item ∈ items, item.Spells := ⟨_, List.mem_of_getElem? hpath, trivial⟩
    exact (pathReference_yields (.event fun _ => hspelled) path).mono fun func hfunc =>
      .inr ⟨by simp [hpath], hspelled, hfunc⟩
  · rename_i n hn
    exact .ok (.inl (by simp [hn]))
  · exact .error trivial

theorem decorator_yields : Yields (decorator r items) (Reduces r items) := by
  rw [decorator_eq]
  apply Yields.bind decoratorReference_yields
  intro func hfunc
  apply Yields.bind (noMore_yields _)
  intro _ hrest
  have hgiven : rootsOf items = rootsOf items[0]?.toList ++ rootsOf (items.drop 1) :=
    rootsOf_first rfl rfl
  -- Without arguments the reference stands for itself, else it is called.
  have hplain : rootsOf (items.drop 1) = [] → Reduces r items (.node func) := by
    intro hnone
    rw [hnone, List.append_nil] at hgiven
    rcases hfunc with hself | ⟨hempty, hspelled, id, hlinked⟩
    · exact .passed (.node func) (hgiven.trans hself).symm
    · exact .referred id (hgiven.trans hempty) hspelled hlinked
  split
  · rename_i hnil
    exact .ok (hplain (by rw [hnil, rootsOf]))
  · rename_i hcons
    have hlast := congrArg List.tail hcons
    rw [List.tail_drop, hrest, List.tail_cons] at hlast
    exact .ok (hplain (by simp [hcons, ← hlast]))
  · rename_i arguments others _ hcons
    have hlast := congrArg List.tail hcons
    rw [List.tail_drop, hrest, List.tail_cons] at hlast
    have harguments : rootsOf (items.drop 1) = rootsOf [arguments] := by rw [hcons, ← hlast]
    apply (callOf_yields func _).mono
    intro result hresult
    subst hresult
    rw [← harguments]
    rcases hfunc with hself | ⟨hempty, hspelled, id, hlinked⟩
    · exact .built (.call (rootsOf_first hself rfl))
    · rw [hempty, List.nil_append] at hgiven
      rw [← hgiven]
      exact .built (.referenceCall id hspelled hlinked)

/-- A definition keeps all its slots but the one of its decorators. -/
theorem decorated_yields (hrule : r.rule = .decorated) (h : FollowSchema items) :
    Yields (decorated r items) (Reduces r items) := by
  rw [decorated_eq]
  have hlast := expectNode_yields "decorated definition" items.getLast?
  apply Yields.bind hlast.and_eq
  intro definition hdefinition
  split
  case isTrue hkind =>
    apply Yields.bind (gather_yields _)
    intro decorators hdecorators
    split
    case isTrue => exact .error trivial
    case isFalse =>
      have hgiven := rootsOf_last hdecorators hdefinition.1
      have hslot : "decorator_list" ∈ definition.construct.slots := by
        simp only [isDecorable, Bool.or_eq_true, decide_eq_true_eq] at hkind
        rcases hkind with (hc | hc) | hc <;> rw [hc] <;> decide
      have hself : definition.FollowsSchema := (h definition (by simp [hgiven])).self
      obtain ⟨result, hresult⟩ :=
        Node.setField_of_followsSchema hself hslot (.list decorators)
      have hitem : items.getLast? = some (.node definition) := by
        cases hl : items.getLast? with
        | none => simp [hl, expectNode] at hdefinition
        | some last => cases last <;> simp_all [expectNode]
      rw [hresult]
      exact .ok (.decorated hrule hgiven hitem hresult)
  case isFalse => exact .error trivial

/-- The asynchronous form has the fields of the statement, under the twin. -/
theorem asyncStatement_yields (h : FollowSchema items) :
    Yields (asyncStatement r items) (Reduces r items) := by
  rw [asyncStatement_eq]
  apply Yields.bind (expectNode_yields _ _)
  intro statement hstatement
  apply Yields.bind (onlyTokens_yields _ _)
  intro _ htokens
  have hgiven : rootsOf items = [statement] := rootsOf_last htokens hstatement
  split
  · rename_i twin htwin
    have hself : statement.FollowsSchema := (h statement (by simp [hgiven])).self
    rw [r.build_of_slots (hself.trans (Construct.slots_of_asyncTwin? htwin).symm)]
    exact .ok (.built (.twin hgiven htwin))
  · exact .error trivial

end TreeLowering.Lowering
