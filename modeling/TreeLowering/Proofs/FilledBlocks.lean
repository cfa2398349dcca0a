/-
# Statements with filled blocks

A statement with a block takes whatever nodes stand in its place, and none at all as well: a
list of tokens, or an empty one, is a block without statements. No other step makes or empties a
block. So the statements of a lowered tree have filled blocks exactly when a statement stands in
each of the places where the tree has the block of one.
-/

import TreeLowering.Proofs.ConditionalChain
import TreeLowering.Proofs.FirstFailure
import TreeLowering.Proofs.Reduction.Places
import TreeLowering.Proofs.Tree.Filled
import TreeLowering.Proofs.TryClauses
import TreeLowering.Proofs.Wellformedness

namespace TreeLowering

open TreeLowering.Lowering TreeLowering.Reduced ParseTree

variable {options : Options} {r : Reduction} {rule : Rule} {position : Position}
  {items : List Reduced} {result : Reduced} {n : Node}

/-! ## Places of blocks -/

/-- The block of a clause with a condition. -/
def Reduced.elifBlock? : Reduced → Option (List Node)
  | .clause (.elif _ body _) => some body
  | _ => none

/-- What must hold a statement among the parts of a rule, by the nodes that are there: the blocks
of a statement, and of a `try` statement also the clauses behind its block. -/
def requiredBlocks : Rule → List Reduced → List (List Node)
  | .ifStmt, items => rootsOf items[1]?.toList :: items.filterMap elifBlock?
  | .whileStmt, items => [rootsOf items[1]?.toList]
  | .forStmt, items => [rootsOf items[2]?.toList]
  | .tryStmt, items => [rootsOf items[0]?.toList, rootsOf (items.drop 1)]
  | .exceptClause, items | .withStmt, items => [rootsOf items.getLast?.toList]
  | .functionDef, items | .classDef, items => [rootsOf (items.drop 1).getLast?.toList]
  | _, _ => []

/-- The rules of statements with a block. -/
def Rule.blockRules : List Rule :=
  [.ifStmt, .forStmt, .whileStmt, .tryStmt, .exceptClause, .withStmt, .functionDef, .classDef]

theorem requiredBlocks_eq_nil (h : rule ∉ Rule.blockRules) (items : List Reduced) :
    requiredBlocks rule items = [] := by
  cases rule <;> first | rfl | exact absurd (by decide) h

/-- In a branch of the tree there is a statement wherever its rule has a block. -/
def Branch.HoldsBlocks (options : Options) (b : Branch) : Prop :=
  ∀ rule items, Rule.ofName? b.name = some rule → Reducts options b.children items →
    [] ∉ requiredBlocks rule items

/-! ## Nodes without a block of their own -/

theorem Rule.MakesInside.runsBlock_eq_false {construct : Construct}
    (h : rule.MakesInside construct) (hif : rule ≠ .ifStmt) : construct.runsBlock = false := by
  simp only [Rule.MakesInside, hif, false_and, or_false, List.mem_cons, List.not_mem_nil] at h
  rcases h with rfl | rfl | rfl | rfl <;> rfl

section Built

variable {construct : Construct} {fields : List (String × Value)}
  (hformed : ∀ n ∈ rootsOf items, n.Everywhere Node.WellFormed)
  (hfilled : ∀ n ∈ rootsOf items, n.Everywhere Node.Filled)

include hformed hfilled

/-- Filled blocks pass on where no conditionals are made out of clauses: all other nodes that are
made on the way have no block. -/
theorem passesOn_filled (hif : r.rule ≠ .ifStmt) :
    PassesOn r items fun _ n => n.Everywhere fun m => m.WellFormed ∧ m.Filled where
  given member := Node.everywhere_and.mpr ⟨hformed _ member, hfilled _ member⟩
  bound source bound := by
    obtain ⟨hself, hblocks⟩ := Node.everywhere_and.mp source
    exact Node.everywhere_and.mpr
      ⟨Node.bind_wellFormed hself bound, Node.everywhere_filled_of_bind hself hblocks bound⟩
  part whole _ hfield _ hchild := whole.child (mem_childrenOf.mpr ⟨_, _, hfield, hchild⟩)
  made inside shape _ _ parts := by
    have hplain := inside.runsBlock_eq_false hif
    exact Node.everywhere_mk_iff.mpr ⟨⟨shape, Node.filled_of_runsBlock_eq_false hplain⟩, parts⟩

omit hformed in
/-- Other rules than those of statements with a block build no block, but for the asynchronous
form of a statement, which has the block that the statement has. -/
theorem Builds.filled (hrule : r.rule ∉ Rule.blockRules) (h : Builds r items construct fields)
    (position : Position) : (Node.mk construct fields position).Filled := by
  cases h with
  | twin given twin =>
      have hstatement := hfilled _ (given ▸ List.mem_cons_self)
      exact hstatement.self.of_twin twin position
  | ifStmt _ _ rule | forStmt _ _ _ rule | whileStmt _ rule | tryStmt _ _ _ rule
  | exceptHandler _ _ _ rule | withStmt _ _ rule | functionDef _ _ _ _ rule
  | classDef _ _ _ rule => exact absurd (rule ▸ by decide) hrule
  | requiredValue kind | elementComprehension kind | keywordStmt kind =>
      rcases kind with rfl | rfl | rfl <;> exact Node.filled_of_runsBlock_eq_false rfl
  | optionalValue kind | display kind | scope kind =>
      rcases kind with rfl | rfl <;> exact Node.filled_of_runsBlock_eq_false rfl
  | _ => exact Node.filled_of_runsBlock_eq_false rfl

/-- A node that a reduction hands on holds filled nodes, and is filled itself unless it is a
statement that runs a block. -/
theorem Reduces.everywhere_filled_node (hif : r.rule ≠ .ifStmt) (h : Reduces r items (.node n)) :
    (∀ child ∈ n.children, child.Everywhere Node.Filled) ∧
      (r.rule ∉ Rule.blockRules → n.Filled) := by
  have hpasses := passesOn_filled hformed hfilled hif
  have hkeep (hn : n.Everywhere Node.Filled) :
      (∀ child ∈ n.children, child.Everywhere Node.Filled) ∧
        (r.rule ∉ Rule.blockRules → n.Filled) :=
    ⟨fun child hchild => hn.child hchild, fun _ => hn.self⟩
  cases h with
  | built builds =>
      have hslots := builds.keepsShape shapes_slots fun n hn => (hformed n hn).self.map_fst_eq
      have hparts := builds.passes hpasses hslots r.position
      exact ⟨fun child hchild => (Node.everywhere_and.mp (hparts.child hchild)).2,
        fun hrule => builds.filled hfilled hrule r.position⟩
  | passed _ kept => exact hkeep (hfilled n (kept ▸ List.mem_cons_self))
  | barren _ empty => cases empty
  | chained _ given linked =>
      exact hkeep (Node.everywhere_and.mp (linked.passes hpasses (hpasses.given given))).2
  | referred _ _ spelled linked =>
      exact hkeep (Node.everywhere_and.mp (linked.passes_of_name hpasses spelled)).2
  | @decorated decorators definition _ _ given _ replaced =>
      have hgiven := hfilled
      rw [given] at hgiven
      obtain ⟨hdecorators, hdefinition⟩ := List.forall_mem_append.mp hgiven
      rw [List.forall_mem_singleton] at hdefinition
      refine hkeep (Node.everywhere_iff.mpr
        ⟨hdefinition.self.of_decorated replaced, fun child hchild => ?_⟩)
      obtain ⟨fields, hfields, rfl⟩ := Node.exists_of_setField_eq_ok replaced
      rcases Node.mem_childrenOf_of_replaceField? hfields hchild with hold | hnew
      · exact hdefinition.child hold
      · exact hdecorators child hnew

end Built

/-- A reduction hands on a node, or nodes of its parts and nothing else. -/
theorem Reduces.roots_subset (h : Reduces r items result) :
    (∃ n, result = .node n) ∨ ∀ n ∈ result.roots, n ∈ rootsOf items := by
  cases h with
  | passed _ kept => exact .inr (by simp [kept])
  | barren _ empty => exact .inr (by simp [empty])
  | built | chained | referred | decorated => exact .inl ⟨_, rfl⟩

/-! ## Statements with blocks -/

/-- The result is a statement that is filled if and only if all of the blocks are. -/
def RunsBlocks (blocks : List (List Node)) (result : Reduced) : Prop :=
  ∃ n, result = .node n ∧ (n.Filled ↔ [] ∉ blocks)

/-- A statement that is built around one block is filled if and only if the block is. -/
theorem runsBlocks_of_build {construct : Construct} {fields : List (String × Value)}
    {part? : Option Reduced} {what : String} {body : List Node}
    (hblock : block what part? = .ok body) (h : r.build construct fields = .ok result)
    (hslots : fields.map (·.1) = construct.slots) (hheld : heldIn "body" fields = body)
    (hruns : construct.runsBlock) (htry : construct ≠ .tryStmt) :
    RunsBlocks [rootsOf part?.toList] result := by
  rw [r.build_of_slots hslots] at h
  cases h
  refine ⟨_, rfl, (Node.filled_iff_held_body (n := .mk _ fields _) hruns htry).trans ?_⟩
  rw [(block_yields what part?).of_ok hblock, List.mem_singleton, ← hheld]
  exact not_congr eq_comm

theorem runsBlocks_of_whileLoop (h : whileLoop r items = .ok result) :
    RunsBlocks [rootsOf items[1]?.toList] result := by
  simp only [whileLoop_eq, bind_eq_ok_iff] at h
  obtain ⟨test, -, body, hbody, orelse, -, _, -, h⟩ := h
  exact runsBlocks_of_build hbody h rfl (by simp [heldIn]) rfl (by decide)

theorem runsBlocks_of_forLoop (h : forLoop r items = .ok result) :
    RunsBlocks [rootsOf items[2]?.toList] result := by
  simp only [forLoop_eq, bind_eq_ok_iff] at h
  obtain ⟨target, -, place, -, iterable, -, body, hbody, orelse, -, _, -, h⟩ := h
  exact runsBlocks_of_build hbody h rfl (by simp [heldIn]) rfl (by decide)

theorem runsBlocks_of_exceptClause (h : exceptClause r items = .ok result) :
    RunsBlocks [rootsOf items.getLast?.toList] result := by
  simp only [exceptClause_eq, bind_eq_ok_iff] at h
  obtain ⟨body, hbody, caught, -, name, -, _, -, h⟩ := h
  split at h
  case isTrue => cases h
  case isFalse => exact runsBlocks_of_build hbody h rfl (by simp [heldIn]) rfl (by decide)

theorem runsBlocks_of_withStatement (h : withStatement r items = .ok result) :
    RunsBlocks [rootsOf items.getLast?.toList] result := by
  simp only [withStatement_eq, bind_eq_ok_iff] at h
  obtain ⟨body, hbody, found, -, managers, -, h⟩ := h
  exact runsBlocks_of_build hbody h rfl (by simp [heldIn]) rfl (by decide)

theorem runsBlocks_of_functionDefinition (h : functionDefinition r items = .ok result) :
    RunsBlocks [rootsOf (items.drop 1).getLast?.toList] result := by
  simp only [functionDefinition_eq, bind_eq_ok_iff] at h
  obtain ⟨name, -, body, hbody, ⟨args, returns⟩, -, h⟩ := h
  exact runsBlocks_of_build hbody h rfl (by simp [heldIn]) rfl (by decide)

theorem runsBlocks_of_classDefinition (h : classDefinition r items = .ok result) :
    RunsBlocks [rootsOf (items.drop 1).getLast?.toList] result := by
  simp only [classDefinition_eq, bind_eq_ok_iff] at h
  obtain ⟨name, -, body, hbody, ⟨bases, keywords⟩, -, h⟩ := h
  exact runsBlocks_of_build hbody h rfl (by simp [heldIn]) rfl (by decide)

/-- An `else` alone is no clause that a `try` statement can do with, so its clauses hold a
statement exactly when a handler is there or a statement to be run at its end. -/
theorem runsBlocks_of_tryStatement (h : tryStatement r items = .ok result) :
    RunsBlocks [rootsOf items[0]?.toList, rootsOf (items.drop 1)] result := by
  simp only [tryStatement_eq, bind_eq_ok_iff] at h
  obtain ⟨body, hbody, found, hfound, _, hchecked, h⟩ := h
  rw [r.build_of_slots rfl] at h
  cases h
  have hempty : rootsOf [] = TryClauses.empty.nodes := rfl
  have hclauses := (Yields.foldlM TryClauses.add_yields hempty (items.drop 1)).of_ok hfound
  have hguarded := (found.check_yields.of_ok hchecked).2
  have hplaces : [] ∉ [rootsOf items[0]?.toList, rootsOf (items.drop 1)] ↔
      body ≠ [] ∧ (found.handlers ≠ [] ∨ found.finally?.getD [] ≠ []) := by
    rw [(block_yields _ _).of_ok hbody, show rootsOf (items.drop 1) = found.nodes from hclauses,
      TryClauses.nodes]
    simp only [List.mem_cons, List.not_mem_nil, or_false, not_or, List.nil_eq,
      List.append_eq_nil_iff]
    tauto
  refine ⟨_, rfl, Iff.trans ?_ hplaces.symm⟩
  simp [Node.filled_iff, Node.held, heldIn, Node.fields, Node.construct, Construct.runsBlock]

/-! ## Conditionals -/

/-- The chain of conditions of an `if` statement and the statements behind it are among its
parts. -/
theorem exists_nested_of_ifStatement (h : ifStatement r items = .ok result) :
    ∃ arms last, result.roots = Arm.nested arms last ∧
      requiredBlocks .ifStmt items = arms.map Arm.body ∧
      (∀ arm ∈ arms, ∀ n ∈ arm.test :: arm.body, n ∈ rootsOf items) ∧
      ∀ n ∈ last, n ∈ rootsOf items := by
  obtain ⟨test, part, rest, rfl⟩ : ∃ test part rest, items = .node test :: part :: rest := by
    rw [ifStatement_eq] at h
    obtain ⟨test, htest, h⟩ := exists_of_bind_eq_ok h
    obtain ⟨body, hbody, -⟩ := exists_of_bind_eq_ok h
    obtain ⟨part, hpart, -⟩ := block_eq_ok_iff.mp hbody
    have hfirst := (expectNode_present _ _).of_ok htest
    cases items with
    | nil => cases hfirst
    | cons first others =>
        cases others with
        | nil => cases hpart
        | cons second rest =>
            cases hfirst
            cases hpart
            exact ⟨test, part, rest, rfl⟩
  obtain ⟨hgroup, elifs, last?, hpresent, rfl⟩ := ifStatement_eq_ok_iff.mp h
  have hclauses : ∀ item ∈ elifs.map Arm.clause ++ optionalClause .otherwise last?,
      ∀ n ∈ item.roots, n ∈ rootsOf (.node test :: part :: rest) := by
    intro item hitem n hn
    rw [← hpresent, present] at hitem
    have hmem : item ∈ Reduced.node test :: part :: rest :=
      List.mem_cons_of_mem _ (List.mem_cons_of_mem _ (List.mem_of_mem_filter hitem))
    exact mem_rootsOf.mpr ⟨item, hmem, hn⟩
  refine ⟨⟨test, part.roots, r.position⟩ :: elifs, last?.getD [], rfl, ?_, ?_, ?_⟩
  · have hpart : part.elifBlock? = none := by cases part <;> first | rfl | cases hgroup
    have hskip : (present rest).filterMap elifBlock? = rest.filterMap elifBlock? :=
      eq_present (fun given others => by simp [List.filterMap_cons, elifBlock?]) rest
    have hlast : (optionalClause .otherwise last?).filterMap elifBlock? = [] := by
      cases last? <;> rfl
    have helifs : rest.filterMap elifBlock? = elifs.map Arm.body := by
      rw [← hskip, hpresent, List.filterMap_append, hlast, List.append_nil, List.filterMap_map,
        ← List.filterMap_eq_map]
      rfl
    have htest : elifBlock? (.node test) = none := rfl
    rw [requiredBlocks, List.filterMap_cons_none htest, List.filterMap_cons_none hpart, helifs]
    simp
  · refine List.forall_mem_cons.mpr ⟨fun n hn => ?_, fun arm harm n hn => ?_⟩
    · rw [rootsOf, roots, rootsOf, List.singleton_append, List.mem_cons, List.mem_append]
      exact (List.mem_cons.mp hn).imp_right .inl
    · exact hclauses arm.clause (List.mem_append_left _ (List.mem_map_of_mem harm)) n hn
  · cases last? with
    | none => simp
    | some body => exact hclauses (.clause (.otherwise body)) (by simp [optionalClause])

section Conditional

variable {arm : Arm} {arms : List Arm} {last orelse : List Node}

theorem everywhere_filled_conditional_iff
    (harm : ∀ n ∈ arm.test :: arm.body, n.Everywhere Node.Filled) :
    (arm.conditional orelse).Everywhere Node.Filled ↔
      arm.body ≠ [] ∧ ∀ n ∈ orelse, n.Everywhere Node.Filled := by
  have htry : Construct.ifStmt ≠ .tryStmt := by decide
  have hself : (arm.conditional orelse).Filled ↔ arm.body ≠ [] := by
    refine (Node.filled_iff_held_body (n := arm.conditional orelse) rfl htry).trans ?_
    simp [Node.held, heldIn, Arm.conditional, Node.fields]
  rw [Node.everywhere_iff, hself]
  refine and_congr_right fun _ => ?_
  have hchildren : (arm.conditional orelse).children = (arm.test :: arm.body) ++ orelse := by
    simp [Arm.conditional]
  rw [hchildren, List.forall_mem_append]
  exact and_iff_right harm

/-- Conditionals nested in one another are filled when the blocks of all conditions are. -/
theorem everywhere_filled_nested_iff
    (harms : ∀ arm ∈ arms, ∀ n ∈ arm.test :: arm.body, n.Everywhere Node.Filled)
    (hlast : ∀ n ∈ last, n.Everywhere Node.Filled) :
    (∀ n ∈ Arm.nested arms last, n.Everywhere Node.Filled) ↔ [] ∉ arms.map Arm.body := by
  induction arms with
  | nil => simpa [Arm.nested] using hlast
  | cons arm rest ih =>
      obtain ⟨harm, hrest⟩ := List.forall_mem_cons.mp harms
      rw [Arm.nested, List.forall_mem_singleton, everywhere_filled_conditional_iff harm, ih hrest,
        List.map_cons, List.mem_cons, not_or]
      exact and_congr_left fun _ => not_congr eq_comm

end Conditional

/-! ## Steps -/

theorem runsBlocks_of_handler (hrule : rule ∈ Rule.blockRules) (hif : rule ≠ .ifStmt)
    (h : handlerOf rule r items = .ok result) :
    RunsBlocks (requiredBlocks rule items) result := by
  simp only [Rule.blockRules, List.mem_cons, List.not_mem_nil, or_false] at hrule
  rcases hrule with rfl | rfl | rfl | rfl | rfl | rfl | rfl | rfl
  · exact absurd rfl hif
  · exact runsBlocks_of_forLoop h
  · exact runsBlocks_of_whileLoop h
  · exact runsBlocks_of_tryStatement h
  · exact runsBlocks_of_exceptClause h
  · exact runsBlocks_of_withStatement h
  · exact runsBlocks_of_functionDefinition h
  · exact runsBlocks_of_classDefinition h

/-- A step of a reduction hands on filled nodes only when it has statements for all blocks. -/
theorem everywhere_filled_iff_of_apply (hok : apply options rule position items = .ok result)
    (hformed : ∀ n ∈ rootsOf items, n.Everywhere Node.WellFormed)
    (hfilled : ∀ n ∈ rootsOf items, n.Everywhere Node.Filled) :
    (∀ n ∈ result.roots, n.Everywhere Node.Filled) ↔ [] ∉ requiredBlocks rule items := by
  have hhandler := handlerOf_eq_ok hok
  by_cases hif : rule = .ifStmt
  · subst hif
    obtain ⟨arms, last, hroots, hblocks, harms, hlast⟩ := exists_nested_of_ifStatement hhandler
    rw [hroots, hblocks]
    exact everywhere_filled_nested_iff (fun arm harm n hn => hfilled n (harms arm harm n hn))
      fun n hn => hfilled n (hlast n hn)
  have hreduces := reduces_of_apply (fun n hn => (hformed n hn).followsSchema) hok
  by_cases hrule : rule ∈ Rule.blockRules
  · obtain ⟨n, rfl, hself⟩ := runsBlocks_of_handler hrule hif hhandler
    obtain ⟨hchildren, -⟩ := hreduces.everywhere_filled_node hformed hfilled hif
    rw [roots, List.forall_mem_singleton, Node.everywhere_iff, and_iff_left hchildren]
    exact hself
  · rw [requiredBlocks_eq_nil hrule]
    refine iff_of_true (fun n hn => ?_) List.not_mem_nil
    rcases hreduces.roots_subset with ⟨m, rfl⟩ | hsubset
    · obtain ⟨hchildren, hself⟩ := hreduces.everywhere_filled_node hformed hfilled hif
      obtain rfl := List.mem_singleton.mp hn
      exact Node.everywhere_iff.mpr ⟨hself hrule, hchildren⟩
    · exact hfilled n (hsubset n hn)

/-! ## Trees -/

theorem ParseTree.Within.trans {part middle tree : ParseTree} (h : part.Within middle)
    (hmiddle : middle.Within tree) : part.Within tree := by
  induction hmiddle with
  | here => exact h
  | inside member _ ih => exact .inside member ih

theorem ParseTree.mem_branches_of_within {part tree : ParseTree} {b : Branch}
    (hpart : part.Within tree) (hb : b ∈ part.branches) : b ∈ tree.branches := by
  induction hpart with
  | here => exact hb
  | inside member _ ih => exact mem_branches_rule.mpr (.inl ⟨_, member, ih⟩)

theorem Reducts.everywhere_wellFormed {children : List ParseTree}
    (h : Reducts options children items) : ∀ n ∈ rootsOf items, n.Everywhere Node.WellFormed :=
  forall_rootsOf_of_reducts h fun _ _ _ => everywhere_wellFormed_of_reduce

/-- A tree gives one list of parts. -/
theorem Reducts.unique {children : List ParseTree} {others : List Reduced}
    (h : Reducts options children items) (hothers : Reducts options children others) :
    items = others := by
  have hsame := (reduceAll_of_reducts h).symm.trans (reduceAll_of_reducts hothers)
  exact Except.ok.inj hsame

/-- Where all blocks in a tree hold a statement, only filled nodes come out. -/
theorem everywhere_filled_of_reduce {tree : ParseTree} (h : reduce options tree = .ok result)
    (hblocks : ∀ b ∈ tree.branches, b.HoldsBlocks options) :
    ∀ n ∈ result.roots, n.Everywhere Node.Filled := by
  induction tree using ParseTree.induction_children generalizing result with
  | absent =>
      rw [reduce] at h
      cases h
      simp
  | token t =>
      rw [reduce] at h
      cases h
      simp
  | rule name children position ih =>
      obtain ⟨items, hitems, hresult⟩ := reduce_rule_eq_ok h
      have hfilled : ∀ n ∈ rootsOf items, n.Everywhere Node.Filled :=
        forall_rootsOf_of_reducts hitems fun child hchild _ hreduced => ih child hchild hreduced
          fun b hb => hblocks b (mem_branches_rule.mpr (.inl ⟨child, hchild, hb⟩))
      rcases hresult with ⟨rule, hname, hok⟩ | ⟨_, rfl⟩
      · have hformed := hitems.everywhere_wellFormed
        have hhere := hblocks ⟨name, children, position⟩ (mem_branches_rule.mpr (.inr rfl))
        exact (everywhere_filled_iff_of_apply hok hformed hfilled).mpr
          (hhere rule items hname hitems)
      · simpa using hfilled

/-- When only filled nodes come out of all parts of a tree, all its blocks hold a statement. -/
theorem holdsBlocks_of_forall_within {tree : ParseTree} (h : reduce options tree = .ok result)
    (hparts : ∀ part value, part.Within tree → reduce options part = .ok value →
      ∀ n ∈ value.roots, n.Everywhere Node.Filled) :
    ∀ b ∈ tree.branches, b.HoldsBlocks options := by
  intro b hb rule items hname hitems
  have hwithin := within_of_mem_branches hb
  obtain ⟨value, hvalue⟩ := reduce_within hwithin h
  obtain ⟨found, hfound, hresult⟩ := reduce_rule_eq_ok hvalue
  obtain rfl := hfound.unique hitems
  have hfilled : ∀ n ∈ rootsOf found, n.Everywhere Node.Filled :=
    forall_rootsOf_of_reducts hitems fun child hchild _ hreduced =>
      hparts child _ (Within.trans (.inside hchild .here) hwithin) hreduced
  rcases hresult with ⟨own, hown, hok⟩ | ⟨hnone, -⟩
  · obtain rfl := Option.some.inj (hown.symm.trans hname)
    have hvalues := hparts b.tree value hwithin hvalue
    exact (everywhere_filled_iff_of_apply hok hitems.everywhere_wellFormed hfilled).mp hvalues
  · cases hname.symm.trans hnone

/-- In a tree that is lowered, every part of it comes out with all blocks filled exactly when a
statement stands wherever the rule of a branch has a block. Then all blocks of the module are
filled. A block without a statement is accepted like any other. -/
theorem filled_iff_holdsBlocks (options : Options) (tree : ParseTree) {module : Node}
    (h : transform options tree = .ok module) :
    ((∀ part value, part.Within tree → reduce options part = .ok value →
        ∀ n ∈ value.subtrees, n.Filled) ↔ ∀ b ∈ tree.branches, b.HoldsBlocks options) ∧
      ((∀ b ∈ tree.branches, b.HoldsBlocks options) → ∀ n ∈ module.subtrees, n.Filled) := by
  have hroot := reduce_of_transform h
  refine ⟨⟨fun hparts => ?_, fun hblocks part value hpart hvalue => ?_⟩, fun hblocks => ?_⟩
  · exact holdsBlocks_of_forall_within hroot fun part value hpart hvalue =>
      forall_subtrees_iff.mp (hparts part value hpart hvalue)
  · refine forall_subtrees_iff.mpr (everywhere_filled_of_reduce hvalue fun b hb => ?_)
    exact hblocks b (mem_branches_of_within hpart hb)
  · exact everywhere_filled_of_reduce hroot hblocks module List.mem_cons_self

/-- The tree of a loop that runs the given block for ever. -/
def endlessLoop (block : ParseTree) : ParseTree :=
  .rule "file_input" [.rule "while_stmt" [.rule "const_true" [] ⟨1, 7, 1, 11⟩, block] ⟨1, 1, 2, 7⟩]
    ⟨1, 1, 2, 7⟩

/-- The tree of a statement that does nothing. -/
def passTree : ParseTree :=
  .rule "pass_stmt" [] ⟨2, 3, 2, 7⟩

theorem holdsBlocks_endlessLoop :
    ∀ b ∈ (endlessLoop passTree).branches, b.HoldsBlocks .default := by
  have hloop : Reducts .default [.rule "const_true" [] ⟨1, 7, 1, 11⟩, passTree]
      [.node (.mk .constant [("value", .scalar (.bool true))] ⟨1, 7, 1, 11⟩),
        .node (.mk .passStmt [] ⟨2, 3, 2, 7⟩)] := .cons rfl (.cons rfl .nil)
  intro b hb rule items hname hitems
  simp only [endlessLoop, passTree, ParseTree.branches, branchesOf, List.nil_append,
    List.append_nil, List.cons_append, List.mem_cons, List.not_mem_nil, or_false] at hb
  rcases hb with rfl | rfl | rfl | rfl <;> cases hname
  · exact List.not_mem_nil
  · exact List.not_mem_nil
  · rw [hitems.unique hloop]
    simp [requiredBlocks]
  · exact List.not_mem_nil

/-- A loop around a single statement has its block filled. -/
theorem filled_iff_holdsBlocks_loop :
    ∃ module, transform .default (endlessLoop passTree) = .ok module ∧
      (∃ n ∈ module.subtrees, n.construct = .whileStmt) ∧ ∀ n ∈ module.subtrees, n.Filled :=
  ⟨_, rfl, ⟨_, List.mem_cons_of_mem _ List.mem_cons_self, rfl⟩,
    (filled_iff_holdsBlocks .default (endlessLoop passTree) rfl).2 holdsBlocks_endlessLoop⟩

/-- A block of a line end and nothing else. -/
def tokenSuite : ParseTree :=
  .rule "suite" [.token ⟨"NEWLINE", "\n", ⟨1, 12, 2, 1⟩⟩] ⟨1, 12, 2, 1⟩

/-- A loop around a line end becomes a loop that runs nothing. -/
theorem endlessLoop_tokenSuite_unfilled :
    ∃ module, transform .default (endlessLoop tokenSuite) = .ok module ∧
      ∃ n ∈ module.subtrees, n.construct = .whileStmt ∧ ¬ n.Filled :=
  ⟨_, rfl, _, List.mem_cons_of_mem _ List.mem_cons_self, rfl, fun h => h.body rfl rfl⟩

end TreeLowering
