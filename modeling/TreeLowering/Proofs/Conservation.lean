/-
# No node is lost

Every step of a reduction either refuses a node among its parts or hands it on exactly
once. What a step hands on has the labels of its parts and at most one more, that of the
node it builds. Four rules are no such steps by their nature: a slash takes no parts, the
constants of adjacent strings are joined, the steps of an attribute chain are read for
their names, and new decorators take the place of those that were there.
-/

import TreeLowering.Proofs.Tree.Label
import TreeLowering.Proofs.Wellformedness

namespace TreeLowering

open TreeLowering.Lowering TreeLowering.Reduced

variable {r : Reduction} {items : List Reduced} {nodes : List Node} {n : Node}

/-! ## Nodes built on the way -/

/-- Names may be used up without a loss. -/
theorem Names.labelsOf_eq (h : Names nodes) (hformed : ∀ n ∈ nodes, n.Everywhere Node.WellFormed) :
    labelsOf nodes = 0 := by
  induction nodes with
  | nil => rfl
  | cons n rest ih =>
      obtain ⟨hname, hnames⟩ := List.forall_mem_cons.mp h
      obtain ⟨hself, hrest⟩ := List.forall_mem_cons.mp hformed
      rw [labelsOf_cons, Node.labels_of_name hname hself.self, ih hnames hrest, add_zero]

theorem Expresses.labels_eq (h : Expresses r nodes n) : n.labels = labelsOf nodes := by
  cases h with
  | single => simp
  | tuple => exact (Node.labels_of_uncounted rfl).trans (by simp)

theorem Expresses.wellFormed (h : Expresses r nodes n)
    (hformed : ∀ m ∈ nodes, m.Everywhere Node.WellFormed) : n.Everywhere Node.WellFormed := by
  cases h with
  | single => exact hformed n List.mem_cons_self
  | tuple => exact Node.everywhere_mk_iff.mpr ⟨.display (.inr rfl) _ _, by simpa using hformed⟩

theorem Returns.labelsOf_eq {value : Option Node} (h : Returns r nodes value) :
    labelsOf value.toList = labelsOf nodes := by
  cases h with
  | nothing => rfl
  | something expressed => simp [expressed.labels_eq]

theorem Targets.labels_eq {usage : Usage} (h : Targets r usage nodes n)
    (hformed : ∀ m ∈ nodes, m.Everywhere Node.WellFormed) : n.labels = labelsOf nodes := by
  obtain ⟨target, expressed, bound⟩ := h
  rw [Node.labels_bind (expressed.wellFormed hformed) bound, expressed.labels_eq]

theorem Linked.labels_eq {places : Position → Prop} {base : Node} (h : Linked places base n) :
    n.labels = base.labels := by
  induction h with
  | base => rfl
  | link _ attr place ih => exact (Node.labels_of_uncounted rfl).trans (by simp [ih])

/-- A dotted path holds nothing but its name. -/
theorem Linked.labels_of_name {places : Position → Prop} {id : String} {position : Position}
    (h : Linked places (.mk .name [("id", .text id), ("ctx", .usage .read)] position) n) :
    n.labels = 0 := by
  rw [h.labels_eq]
  exact Node.labels_of_name rfl (.name id .read)

theorem Branches.labelsOf_eq {places : Position → Prop} {orelse : List Node}
    (h : Branches places nodes orelse) : labelsOf orelse = labelsOf nodes := by
  induction h with
  | block => rfl
  | elif test body place _ ih =>
      rw [labelsOf_cons, labelsOf_nil, add_zero]
      exact (Node.labels_of_uncounted rfl).trans (by simp [ih])

theorem Signs.labels_eq {position : Position} (h : Signs position nodes n) :
    n.labels = labelsOf nodes := by
  cases h with
  | finished => simp
  | collected collects => exact (Node.labels_of_uncounted rfl).trans (labelsOf_perm collects.placed)

theorem labelsOf_bindAll {usage : Usage} {places : List Node}
    (h : List.Forall₂ (fun n place => n.bind usage = .ok place) nodes places)
    (hformed : ∀ n ∈ nodes, n.Everywhere Node.WellFormed) : labelsOf places = labelsOf nodes := by
  induction h with
  | nil => rfl
  | cons hhead _ ih =>
      obtain ⟨hself, hrest⟩ := List.forall_mem_cons.mp hformed
      rw [labelsOf_cons, Node.labels_bind hself hhead, ih hrest, labelsOf_cons]

theorem labelsOf_targets {usage : Usage} {parts : List Reduced} {places : List Node}
    (h : List.Forall₂ (fun part place => Targets r usage part.roots place) parts places)
    (hformed : ∀ n ∈ rootsOf parts, n.Everywhere Node.WellFormed) :
    labelsOf places = labelsOf (rootsOf parts) := by
  induction h with
  | nil => rfl
  | cons hhead _ ih =>
      obtain ⟨hself, hrest⟩ := List.forall_mem_append.mp hformed
      rw [labelsOf_cons, hhead.labels_eq hself, ih hrest, rootsOf, labelsOf_append]

theorem labelsOf_entryNodes (found : List Entry) :
    labelsOf ((found.map (·.1)).filterMap id) + labelsOf (found.map (·.2)) =
      labelsOf (entryNodes found) := by
  induction found with
  | nil => rfl
  | cons entry rest ih =>
      obtain ⟨key, value⟩ := entry
      cases key <;> simp [← ih] <;> abel

/-! ## Built nodes -/

variable {construct : Construct} {fields : List (String × Value)}

/-- The nodes of a node that is built have the labels of the parts, unless constants are
joined. -/
theorem Builds.labelsOf_eq (h : Builds r items construct fields) (hrule : r.rule ≠ .stringConcat)
    (hformed : ∀ n ∈ rootsOf items, n.Everywhere Node.WellFormed) :
    labelsOf (childrenOf fields) = labelsOf (rootsOf items) := by
  cases h with
  | constant _ given => simp [given]
  | joined rule => exact absurd rule hrule
  | name id given | scope kind some given | importName name asname given =>
      simp [given.labelsOf_eq hformed]
  | starred given | slice given | compare given | binOp given | boolOp given | unaryOp given
  | elementComprehension kind given | dictComp given | raiseStmt given | assertStmt given
  | keywordStmt kind given | whileStmt given | tryStmt given | withStmt given =>
      simp [given]
  | conditional given =>
      simp only [given, childrenOf_cons, Value.children_node, childrenOf_nil, labelsOf_append,
        labelsOf_cons, labelsOf_nil, add_zero]
      abel
  | namedExpr given bound =>
      rw [given, List.forall_mem_cons] at hformed
      simp [given, Node.labels_bind hformed.1 bound]
  | requiredValue kind expressed => simp [expressed.labels_eq]
  | optionalValue kind returned => simp [returned.labelsOf_eq]
  | access attr named given =>
      rw [given, List.forall_mem_cons] at hformed
      simp [given, named.labelsOf_eq hformed.2]
  | subscript given expressed => simp [given, expressed.labels_eq]
  | call given => simp [given, labelsOf_filter_add]
  | referenceCall id spelled reference => simp [reference.labels_of_name, labelsOf_filter_add]
  | keyword arg named given =>
      rw [given, List.forall_mem_append] at hformed
      simp [given, named.labelsOf_eq hformed.1]
  | display kind | set | importStmt | importFrom | module => simp
  | dict given =>
      simp only [given, ← labelsOf_entryNodes, childrenOf_cons, Value.children_sparse,
        Value.children_list, childrenOf_nil, List.append_nil, labelsOf_append]
  | comprehension given bound =>
      rw [given] at hformed
      simp [given, Node.labels_bind (hformed _ (by simp)) bound]
  | assign given bound expressed =>
      rw [given, List.forall_mem_append] at hformed
      simp [given, labelsOf_targets bound hformed.1, expressed.labels_eq]
  | augAssign given bound _ expressed =>
      rw [given, List.forall_mem_cons] at hformed
      simp [given, Node.labels_bind hformed.1 bound, expressed.labels_eq]
  | annAssign given bound =>
      rw [given] at hformed
      simp [given, Node.labels_bind (hformed _ (by simp)) bound]
  | deleteStmt bound => simp [labelsOf_bindAll bound hformed]
  | ifStmt given chain => simp [given, chain.labelsOf_eq]
  | forStmt given bound expressed =>
      rw [given, List.forall_mem_append] at hformed
      simp [given, bound.labels_eq hformed.1, expressed.labels_eq]
  | exceptHandler named given =>
      rw [given, List.forall_mem_append, List.forall_mem_append] at hformed
      simp [given, named.labelsOf_eq hformed.1.2]
  | withItem given bound =>
      rw [given, List.forall_mem_cons] at hformed
      simp [given, labelsOf_bindAll bound hformed.2]
  | functionDef name named given signed =>
      rw [given, List.forall_mem_append] at hformed
      simp only [given, named.labelsOf_eq hformed.1, signed.labels_eq, childrenOf_cons,
        Value.children_text, Value.children_node, Value.children_list, Value.children_ofOption,
        childrenOf_nil, labelsOf_append, labelsOf_cons, labelsOf_nil, add_zero, zero_add]
      abel
  | lambda given signed => simp [given, signed.labels_eq]
  | classDef name named given =>
      rw [given, List.forall_mem_append] at hformed
      simp [given, named.labelsOf_eq hformed.1, ← add_assoc, labelsOf_filter_add]
  | arguments collects => exact labelsOf_perm collects.placed
  | parameter arg named given =>
      rw [given, List.forall_mem_append] at hformed
      simp [given, named.labelsOf_eq hformed.1]
  | twin given twin =>
      have hlabels := Node.labels_of_uncounted (Construct.isCounted_of_asyncTwin? twin).1
      simp [given, hlabels, Node.children]

/-! ## Results -/

/-- Decorators that replace none are added to what a definition holds. -/
theorem Node.labels_of_decorated {definition result : Node} {decorators : List Node}
    (hformed : definition.WellFormed)
    (hbare : ∀ old, definition.get? "decorator_list" = some (.list old) → old = [])
    (hset : definition.setField "decorator_list" (.list decorators) = .ok result) :
    result.labels = labelsOf decorators + definition.labels := by
  obtain ⟨fields, hfields, rfl⟩ := exists_of_setField_eq_ok hset
  obtain ⟨construct, before, position⟩ := definition
  rw [wellFormed_mk] at hformed
  cases hformed with
  | function _ name body old returns | classDef name body old =>
      obtain rfl := Option.some.inj hfields
      obtain rfl := hbare old rfl
      rw [labels_eq, labels_eq (.mk _ _ position), add_left_comm]
      refine congrArg₂ _ (ownLabel_eq_of_label_eq rfl) ?_
      simp only [children_mk, childrenOf_cons, Value.children_list, labelsOf_append, labelsOf_nil]
      abel
  | _ => cases hfields

/-- The label that a result adds to those of its parts: none, or that of the node that it
is, which stands at the position of the step. -/
def Adds (position : Position) (result : Reduced) (built : Multiset Label) : Prop :=
  built = 0 ∨ ∃ n, result = .node n ∧ n.position = position ∧ built = {n.label}

/-- The last of the parts is a definition that carries decorators already. -/
def Redecorates (items : List Reduced) : Prop :=
  ∃ definition decorators, items.getLast? = some (.node definition) ∧
    definition.get? "decorator_list" = some (.list decorators) ∧ decorators ≠ []

/-- Steps that drop some of the nodes of their parts. -/
def Exempt (rule : Rule) (items : List Reduced) : Prop :=
  rule = .slash ∨ rule = .stringConcat ∨ rule = .attrChain ∨
    rule = .decorated ∧ Redecorates items

theorem Reduces.labels_eq {result : Reduced} (h : Reduces r items result)
    (hexempt : ¬ Exempt r.rule items)
    (hformed : ∀ n ∈ rootsOf items, n.Everywhere Node.WellFormed) :
    ∃ built, Adds r.position result built ∧
      result.labels = (items.map Reduced.labels).sum + built := by
  simp only [Exempt, not_or, not_and] at hexempt
  obtain ⟨hslash, hconcat, hchain, hdecorated⟩ := hexempt
  rw [sum_map_labels]
  cases h with
  | @built construct fields builds =>
      refine ⟨(Node.mk construct fields r.position).ownLabel, ?_, ?_⟩
      · rw [Node.ownLabel]
        split
        · exact .inr ⟨_, rfl, rfl, rfl⟩
        · exact .inl rfl
      · rw [Reduced.labels, roots, labelsOf_cons, labelsOf_nil, add_zero, Node.labels_eq, add_comm,
          Node.children_mk, builds.labelsOf_eq hconcat hformed]
  | passed _ kept => exact ⟨0, .inl rfl, by rw [Reduced.labels, kept, add_zero]⟩
  | barren _ empty given =>
      have hnames := given.resolve_left hslash
      refine ⟨0, .inl rfl, ?_⟩
      rw [Reduced.labels, empty, hnames.labelsOf_eq hformed, labelsOf_nil, add_zero]
  | chained rule => exact absurd rule hchain
  | referred id given _ linked =>
      exact ⟨0, .inl rfl, by simp [Reduced.labels, given, linked.labels_of_name]⟩
  | @decorated decorators definition result rule given last replaced =>
      have hself := (hformed definition (by simp [given])).self
      have hbare : ∀ old, definition.get? "decorator_list" = some (.list old) → old = [] := by
        intro old hold
        by_contra hne
        exact hdecorated rule ⟨definition, old, last, hold, hne⟩
      refine ⟨0, .inl rfl, ?_⟩
      simp [Reduced.labels, given, Node.labels_of_decorated hself hbare replaced]

/-! ## Steps of a tree -/

/-- In a tree that reduces, every step has reduced parts and a result, and unless it is
exempt, its result has exactly the labels of the parts and at most the one that it adds. -/
theorem labels_of_step (options : Options) (tree : ParseTree) {root : Reduced}
    (hroot : reduce options tree = .ok root) {name : String} {children : List ParseTree}
    {position : Position} {rule : Rule} (hname : Rule.ofName? name = some rule)
    (hwithin : (ParseTree.rule name children position).Within tree) :
    ∃ items result, Reducts options children items ∧
      reduce options (.rule name children position) = .ok result ∧
      (¬ Exempt rule items → ∃ built, Adds position result built ∧
        result.labels = (items.map Reduced.labels).sum + built) := by
  obtain ⟨result, hresult⟩ := reduce_within hwithin hroot
  obtain ⟨items, hitems, hcase⟩ := reduce_rule_eq_ok hresult
  refine ⟨items, result, hitems, hresult, fun hexempt => ?_⟩
  rcases hcase with ⟨found, hfound, hok⟩ | ⟨hnone, _⟩
  · rw [hname] at hfound
    cases hfound
    have hformed : ∀ n ∈ rootsOf items, n.Everywhere Node.WellFormed :=
      forall_rootsOf_of_reducts hitems fun _ _ _ => everywhere_wellFormed_of_reduce
    have hschema : FollowSchema items := fun n hn => (hformed n hn).followsSchema
    exact (reduces_of_apply hschema hok).labels_eq hexempt hformed
  · rw [hname] at hnone
    cases hnone

/-- In the statement `f(True)` the call hands on the constant and adds its own label. -/
theorem labels_of_step_call :
    ∃ items result, Reducts .default [.rule "var" [.token ⟨"NAME", "f", ⟨1, 1, 1, 2⟩⟩] ⟨1, 1, 1, 2⟩,
        .rule "const_true" [] ⟨1, 3, 1, 7⟩] items ∧
      reduce .default (.rule "funccall" [.rule "var" [.token ⟨"NAME", "f", ⟨1, 1, 1, 2⟩⟩]
        ⟨1, 1, 1, 2⟩, .rule "const_true" [] ⟨1, 3, 1, 7⟩] ⟨1, 1, 1, 8⟩) = .ok result ∧
      ∃ built, Adds ⟨1, 1, 1, 8⟩ result built ∧
        result.labels = (items.map Reduced.labels).sum + built := by
  obtain ⟨items, result, hitems, hresult, hlabels⟩ := labels_of_step .default
    (.rule "expr_stmt" [.rule "funccall" [.rule "var" [.token ⟨"NAME", "f", ⟨1, 1, 1, 2⟩⟩]
      ⟨1, 1, 1, 2⟩, .rule "const_true" [] ⟨1, 3, 1, 7⟩] ⟨1, 1, 1, 8⟩] .unknown)
    rfl rfl (.inside List.mem_cons_self .here)
  exact ⟨items, result, hitems, hresult, hlabels (by simp [Exempt])⟩

end TreeLowering
