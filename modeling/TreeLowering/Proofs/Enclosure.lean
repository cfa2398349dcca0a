/-
# Nodes enclose what they hold

The ranges of a lowered tree are nested as those of the parse tree are, with two exceptions.
Decorators stand before the definition that holds them. And the conditional made of a clause
keeps the range of that clause, while the clauses behind it become its alternative, which
therefore starts where the clause has ended.
-/

import TreeLowering.Proofs.Containment
import TreeLowering.Proofs.Reduction.Places

namespace TreeLowering

open TreeLowering.Lowering TreeLowering.Reduced

variable {options : Options} {r : Reduction} {items : List Reduced} {item result : Reduced}
  {clauses : Position → Prop} {outer inner range position : Position} {rule : Rule}
  {place earlier : ℕ ×ₗ ℕ}

/-! ## Nodes -/

/-- What a node holds lies in its range, apart from decorators, and from the alternative of a
conditional at the range of a clause, which starts behind it. -/
def Node.Encloses (clauses : Position → Prop) (n : Node) : Prop :=
  ∀ field ∈ n.fields, ∀ child ∈ field.2.children, field.1 ≠ "decorator_list" →
    n.position.Covers child.position ∨
      n.construct = .ifStmt ∧ field.1 = "orelse" ∧ clauses n.position ∧
        n.position.stop ≤ child.position.start

/-- Some word in a range ends no later than a place. -/
def SpelledBy (range : Position) (place : ℕ ×ₗ ℕ) : Prop :=
  ∃ word : Position, word.Proper ∧ range.Covers word ∧ word.stop ≤ place

theorem SpelledBy.mono (h : SpelledBy inner earlier) (houter : outer.Covers inner)
    (hplace : earlier ≤ place) : SpelledBy outer place := by
  obtain ⟨word, hproper, hcovered, hstop⟩ := h
  exact ⟨word, hproper, houter.trans hcovered, hstop.trans hplace⟩

/-- What starts no later than a range has ended before the words in it. -/
theorem SpelledBy.le_of_le_start (h : SpelledBy range place) (hstart : earlier ≤ range.start) :
    earlier ≤ place := by
  obtain ⟨word, hproper, hcovered, hstop⟩ := h
  exact hstart.trans (hcovered.1.trans (hproper.2.trans hstop))

theorem SpelledBy.ne_unknown (h : SpelledBy range position.stop) : position ≠ .unknown := by
  obtain ⟨word, hproper, _, hstop⟩ := h
  rintro rfl
  exact hproper.not_stop_le_unknown hstop

/-- A node lies in a range that it was found in, encloses what it holds, and if it names
something, ends no earlier than a word in that range. -/
structure Node.LaidIn (clauses : Position → Prop) (range : Position) (n : Node) : Prop where
  covered : range.Covers n.position
  spelled : n.construct = .name ∨ n.construct = .attribute → SpelledBy range n.position.stop
  encloses : n.Encloses clauses

namespace Node

theorem Everywhere.laidIn_mono {n : Node} (h : n.Everywhere (LaidIn clauses inner))
    (houter : outer.Covers inner) : n.Everywhere (LaidIn clauses outer) := fun m hm =>
  ⟨houter.trans (h m hm).covered, fun hname => ((h m hm).spelled hname).mono houter le_rfl,
    (h m hm).encloses⟩

/-- Outlines are all that matters to a layout. -/
theorem LaidIn.of_outline {n m : Node} (houtline : SameOutline n m)
    (h : n.LaidIn clauses range) : m.LaidIn clauses range := by
  obtain ⟨hconstruct, hposition, hspread⟩ := houtline
  refine ⟨by rw [hposition]; exact h.covered, by rw [hconstruct, hposition]; exact h.spelled,
    fun field hfield child hchild hslot => ?_⟩
  have hheld : (field.1, child.position) ∈ n.spread := by
    rw [← hspread]
    exact mem_spread.mpr ⟨field, hfield, rfl, child, hchild, rfl⟩
  obtain ⟨old, hold, hname, held, hheld, hplace⟩ := mem_spread.mp hheld
  rw [hconstruct, hposition, ← hplace, ← hname]
  exact h.encloses old hold held hheld (hname ▸ hslot)

/-- A node that is made around nodes within its range encloses them. -/
theorem LaidIn.made {construct : Construct} {fields : List (String × Value)}
    (hcovered : range.Covers position)
    (hspelled : construct = .name ∨ construct = .attribute → SpelledBy range position.stop)
    (hchildren : ∀ child ∈ childrenOf fields, position.Covers child.position) :
    (Node.mk construct fields position).LaidIn clauses range :=
  ⟨hcovered, hspelled, fun _ hfield child hchild _ =>
    .inl (hchildren child (mem_childrenOf.mpr ⟨_, _, hfield, hchild⟩))⟩

end Node

/-! ## Parts -/

/-- What a part brings along lies in its range, where a token and a clause stand. If a name
is spelled in it, the range has a word. -/
structure Reduced.LaidAt (clauses : Position → Prop) (range : Position) (item : Reduced) :
    Prop where
  nodes : ∀ n ∈ item.roots, n.Everywhere (Node.LaidIn clauses range)
  spelled : item.Spells → SpelledBy range range.stop
  token : ∀ t, item = .token t → t.position = range
  clause : ∀ test body position, item = .clause (.elif test body position) →
    position = range ∧ clauses range

/-- A part is a placeholder, or lies in a range from some place on. -/
def StartsFrom (clauses : Position → Prop) (place : ℕ ×ₗ ℕ) (item : Reduced) : Prop :=
  item = .absent ∨ ∃ range, place ≤ range.start ∧ item.LaidAt clauses range

theorem StartsFrom.weaken (h : StartsFrom clauses place item) (hplace : earlier ≤ place) :
    StartsFrom clauses earlier item :=
  h.imp_right fun ⟨range, hstart, hlaid⟩ => ⟨range, hplace.trans hstart, hlaid⟩

/-- Parts that lie in ranges within another one, each behind those before it. -/
inductive InOrder (clauses : Position → Prop) (outer : Position) : List Reduced → Prop
  | nil : InOrder clauses outer []
  | absent {rest : List Reduced} (behind : InOrder clauses outer rest) :
      InOrder clauses outer (.absent :: rest)
  | item {range : Position} {item : Reduced} {rest : List Reduced} (covered : outer.Covers range)
      (laid : item.LaidAt clauses range)
      (after : ∀ later ∈ rest, StartsFrom clauses range.stop later)
      (behind : InOrder clauses outer rest) : InOrder clauses outer (item :: rest)

namespace InOrder

theorem drop (h : InOrder clauses outer items) (count : ℕ) :
    InOrder clauses outer (items.drop count) := by
  induction count generalizing items with
  | zero => exact h
  | succ count ih =>
      cases h with
      | nil => exact .nil
      | absent behind | item _ _ _ behind => exact ih behind

/-- A part is a placeholder or has its range. -/
theorem laidAt (h : InOrder clauses outer items) (hitem : item ∈ items) :
    item = .absent ∨ ∃ range, outer.Covers range ∧ item.LaidAt clauses range := by
  induction h with
  | nil => cases hitem
  | absent _ ih =>
      rcases List.mem_cons.mp hitem with rfl | hrest
      · exact .inl rfl
      · exact ih hrest
  | item covered laid _ _ ih =>
      rcases List.mem_cons.mp hitem with rfl | hrest
      · exact .inr ⟨_, covered, laid⟩
      · exact ih hrest

theorem startsFrom (h : InOrder clauses outer items) :
    ∀ item ∈ items, StartsFrom clauses outer.start item := fun _ hitem =>
  (h.laidAt hitem).imp_right fun ⟨range, hcovered, hlaid⟩ => ⟨range, hcovered.1, hlaid⟩

theorem roots (h : InOrder clauses outer items) :
    ∀ n ∈ rootsOf items, n.Everywhere (Node.LaidIn clauses outer) := by
  intro n hn
  obtain ⟨item, hitem, hroot⟩ := mem_rootsOf.mp hn
  rcases h.laidAt hitem with rfl | ⟨range, hcovered, hlaid⟩
  · cases hroot
  · exact (hlaid.nodes n hroot).laidIn_mono hcovered

theorem spelled (h : InOrder clauses outer items) (hspelled : ∃ item ∈ items, item.Spells) :
    SpelledBy outer outer.stop := by
  obtain ⟨item, hitem, hspells⟩ := hspelled
  rcases h.laidAt hitem with rfl | ⟨range, hcovered, hlaid⟩
  · cases hspells
  · exact (hlaid.spelled hspells).mono hcovered hcovered.2

end InOrder

/-! ## Chains of accesses -/

/-- Only nodes that name something can be steps of a chain. -/
theorem spells_of_chainStep {attr : String} {step : Position}
    (hschema : ∀ n ∈ item.roots, n.FollowsSchema) (h : chainStep item = .ok (attr, step)) :
    item.Spells := by
  have hslots : ∀ construct : Construct, ("id" ∈ construct.slots → construct = .name) ∧
      ("attr" ∈ construct.slots → construct = .attribute) := by
    intro construct
    cases construct <;> decide
  rw [chainStep.eq_def] at h
  split at h
  · trivial
  · rename_i n
    have hself := hschema n List.mem_cons_self
    split at h
    · rename_i name hname
      obtain ⟨value, hvalue, _⟩ := Option.bind_eq_some_iff.mp hname
      rcases Option.or_eq_some_iff.mp hvalue with hid | ⟨_, hattr⟩
      · exact .inl ((hslots _).1 (Node.mem_slots_of_get? hself hid))
      · exact .inr ((hslots _).2 (Node.mem_slots_of_get? hself hattr))
    · cases h
  · cases h

/-- A step of a chain lies in its range, and has a word in it. -/
theorem Reduced.LaidAt.chainStep {attr : String} {step : Position} (h : item.LaidAt clauses range)
    (hschema : ∀ n ∈ item.roots, n.FollowsSchema) (hstep : chainStep item = .ok (attr, step)) :
    range.Covers step ∧ SpelledBy range step.stop := by
  have hspells := spells_of_chainStep hschema hstep
  rw [Lowering.chainStep.eq_def] at hstep
  split at hstep
  · rename_i t
    cases hstep
    rw [h.token t rfl]
    exact ⟨.refl _, h.spelled hspells⟩
  · rename_i n
    split at hstep <;> cases hstep
    have hself := (h.nodes n List.mem_cons_self).self
    exact ⟨hself.covered, hself.spelled hspells⟩
  · cases hstep

theorem everywhere_laidIn_access {chain : Node} (attr : String)
    (hchain : chain.Everywhere (Node.LaidIn clauses range)) (hcovered : range.Covers position)
    (hspelled : SpelledBy range position.stop) (hinner : position.Covers chain.position) :
    (Node.mk .attribute (accessFields chain attr .read) position).Everywhere
      (Node.LaidIn clauses range) :=
  Node.everywhere_mk_iff.mpr
    ⟨.made hcovered (fun _ => hspelled) (by simpa using hinner), by simpa using hchain⟩

/-- Each link of a chain ends with its step, before the next one starts, and so it lies in
the link around it. The last one has the range of the whole. -/
theorem laidIn_of_attributeLinks {start : Position} {chain last : Node} {steps : List Reduced}
    (hsteps : InOrder clauses r.position steps) (hschema : FollowSchema steps)
    (hchain : chain.Everywhere (Node.LaidIn clauses r.position))
    (hstart : start.start = chain.position.start)
    (hstop : ∀ item ∈ steps, StartsFrom clauses chain.position.stop item)
    (h : attributeLinks r start chain steps = .ok last) :
    last.Everywhere (Node.LaidIn clauses r.position) := by
  -- What carries the induction is that no step still to come starts before the chain ends.
  induction hsteps generalizing chain with
  | nil =>
      cases h
      exact hchain
  | absent =>
      obtain ⟨_, hstep, _⟩ := exists_of_bind_eq_ok h
      cases hstep
  | @item range item rest covered laid after _ ih =>
      rw [attributeLinks] at h
      obtain ⟨⟨attr, step⟩, htaken, h⟩ := exists_of_bind_eq_ok h
      obtain ⟨link, hlink, h⟩ := exists_of_bind_eq_ok h
      obtain rfl := (attributeOf_yields _ _ _).of_ok hlink
      have hitem : ∀ n ∈ item.roots, n.FollowsSchema := fun n hn =>
        (hschema n (mem_rootsOf.mpr ⟨item, List.mem_cons_self, hn⟩)).self
      obtain ⟨hstep, hspelled⟩ := laid.chainStep hitem htaken
      have hwhole := covered.trans hstep
      cases rest with
      | nil =>
          cases h
          exact everywhere_laidIn_access attr hchain (.refl _) (hspelled.mono covered hwhole.2)
            hchain.self.covered
      | cons next others =>
          -- A step has a word in it, so the link never falls back to the end of the whole.
          have hplace : linkPosition r start step (next :: others).isEmpty = start.span step := by
            simp [linkPosition, hspelled.ne_unknown]
          rw [hplace] at h
          have hbefore : chain.position.stop ≤ step.stop := by
            rcases hstop item List.mem_cons_self with rfl | ⟨found, hfound, hlaid⟩
            · cases htaken
            · exact (hlaid.chainStep hitem htaken).2.le_of_le_start hfound
          have hspan : r.position.Covers (start.span step) :=
            ⟨hchain.self.covered.1.trans hstart.ge, hwhole.2⟩
          have hlink := everywhere_laidIn_access attr hchain hspan
            (hspelled.mono covered le_rfl) ⟨hstart.le, hbefore⟩
          exact ih (hschema.sublist (List.sublist_cons_self _ _)) hlink rfl
            (fun later hlater => (after later hlater).weaken hstep.2) h

theorem laidIn_of_attributeChain (hitems : InOrder clauses r.position items)
    (hschema : FollowSchema items) (hok : attributeChain r items = .ok result) :
    ∀ n ∈ result.roots, n.Everywhere (Node.LaidIn clauses r.position) := by
  rw [attributeChain_eq] at hok
  obtain ⟨base, hbase, hok⟩ := exists_of_bind_eq_ok hok
  have hfirst := (expectNode_present _ _).of_ok hbase
  split at hok
  · cases hok
  · obtain ⟨chain, hlinks, rfl⟩ := exists_of_map_eq_ok hok
    cases hitems with
    | nil => cases hfirst
    | absent => cases hfirst
    | item covered laid after behind =>
        cases hfirst
        have hself := laid.nodes base List.mem_cons_self
        have hrest := hschema.sublist (List.sublist_cons_self _ _)
        simpa using laidIn_of_attributeLinks behind hrest (hself.laidIn_mono covered) rfl
          (fun later hlater => (after later hlater).weaken hself.self.covered.2) hlinks

/-! ## Conditionals -/

/-- The conditional made of a clause encloses its test and its body; what is behind the clause
comes after it. -/
theorem everywhere_laidIn_conditional {test : Node} {body orelse : List Node}
    (hcovered : outer.Covers range) (hclause : clauses range)
    (hheld : ∀ n ∈ test :: body, n.Everywhere (Node.LaidIn clauses range))
    (hbehind : ∀ n ∈ orelse,
      range.stop ≤ n.position.start ∧ n.Everywhere (Node.LaidIn clauses outer)) :
    (Node.mk .ifStmt [("test", .node test), ("body", .list body), ("orelse", .list orelse)]
      range).Everywhere (Node.LaidIn clauses outer) := by
  obtain ⟨htest, hbody⟩ := List.forall_mem_cons.mp hheld
  refine Node.everywhere_mk_iff.mpr ⟨⟨hcovered, nofun, ?_⟩, ?_⟩
  · intro field hfield child hchild _
    simp only [Node.fields, List.mem_cons, List.not_mem_nil, or_false] at hfield
    rcases hfield with rfl | rfl | rfl
    · obtain rfl : child = test := by simpa using hchild
      exact .inl htest.self.covered
    · exact .inl (hbody child hchild).self.covered
    · exact .inr ⟨rfl, rfl, hclause, (hbehind child hchild).1⟩
  · simp only [childrenOf_cons, Value.children_node, Value.children_list, childrenOf_nil,
      List.append_nil, List.forall_mem_append, List.forall_mem_singleton]
    exact ⟨htest.laidIn_mono hcovered, fun n hn => (hbody n hn).laidIn_mono hcovered,
      fun n hn => (hbehind n hn).2⟩

/-- Clauses become nodes that start no earlier than the clauses do. -/
theorem laidIn_of_branches (h : InOrder clauses outer items)
    (hstart : ∀ item ∈ items, StartsFrom clauses place item) {orelse : List Node}
    (hok : branches items = .ok orelse) :
    ∀ n ∈ orelse, place ≤ n.position.start ∧ n.Everywhere (Node.LaidIn clauses outer) := by
  induction h generalizing place orelse with
  | nil =>
      cases hok
      simp
  | absent _ ih =>
      rw [branches] at hok
      exact ih (List.forall_mem_cons.mp hstart).2 hok
  | @item range item rest covered laid after _ ih =>
      obtain ⟨hfirst, hrest⟩ := List.forall_mem_cons.mp hstart
      cases item with
      | clause c =>
          obtain ⟨found, hfound, hlaid⟩ := hfirst.resolve_left (by simp)
          cases c with
          | elif test body position =>
              -- The later clauses go into the alternative, and so outside of this range.
              rw [branches] at hok
              obtain ⟨others, hothers, hok⟩ := exists_of_bind_eq_ok hok
              obtain ⟨conditional, hconditional, hok⟩ := exists_of_bind_eq_ok hok
              obtain rfl := (conditionalAt_yields _ _ _ _).of_ok hconditional
              cases hok
              obtain ⟨rfl, hclause⟩ := laid.clause test body position rfl
              obtain ⟨rfl, _⟩ := hlaid.clause test body position rfl
              rw [List.forall_mem_singleton]
              exact ⟨hfound, everywhere_laidIn_conditional covered hclause laid.nodes
                (ih after hothers)⟩
          | otherwise body =>
              rw [branches] at hok
              obtain ⟨_, _, hok⟩ := exists_of_bind_eq_ok hok
              cases hok
              exact fun n hn => ⟨hfound.trans (hlaid.nodes n hn).self.covered.1,
                (laid.nodes n hn).laidIn_mono covered⟩
          | finish => cases hok
      | absent =>
          rw [branches] at hok
          exact ih hrest hok
      | _ => cases hok

theorem laidIn_of_ifStatement (hitems : InOrder clauses r.position items)
    (hok : ifStatement r items = .ok result) :
    ∀ n ∈ result.roots, n.Everywhere (Node.LaidIn clauses r.position) := by
  rw [ifStatement_eq] at hok
  obtain ⟨test, htest, hok⟩ := exists_of_bind_eq_ok hok
  obtain ⟨body, hbody, hok⟩ := exists_of_bind_eq_ok hok
  obtain ⟨orelse, horelse, hok⟩ := exists_of_bind_eq_ok hok
  obtain ⟨conditional, hconditional, rfl⟩ := exists_of_map_eq_ok hok
  obtain rfl := (conditionalAt_yields _ _ _ _).of_ok hconditional
  have hgiven := rootsOf_first ((expectNode_yields _ _).of_ok htest)
    (rootsOf_drop ((block_yields _ _).of_ok hbody) rfl)
  have hclauses := hitems.drop 2
  have hchildren : ∀ child ∈ [test] ++ (body ++ orelse),
      child.Everywhere (Node.LaidIn clauses r.position) := by
    have hlaid := hitems.roots
    rw [hgiven] at hlaid
    simp only [List.forall_mem_append] at hlaid ⊢
    exact ⟨hlaid.1, hlaid.2.1, fun n hn =>
      (laidIn_of_branches hclauses hclauses.startsFrom horelse n hn).2⟩
  simp only [roots, List.forall_mem_singleton]
  refine Node.everywhere_mk_iff.mpr ⟨.made (.refl _) (by simp) fun child hchild => ?_, ?_⟩
  · exact (hchildren child (by simpa using hchild)).self.covered
  · simpa using hchildren

/-! ## Definitions with decorators -/

/-- The decorators are put into the one slot that a node need not enclose. -/
theorem laidIn_of_decorated (hitems : InOrder clauses r.position items)
    (hok : decorated r items = .ok result) :
    ∀ n ∈ result.roots, n.Everywhere (Node.LaidIn clauses r.position) := by
  rw [decorated_eq] at hok
  obtain ⟨definition, hlast, hok⟩ := exists_of_bind_eq_ok hok
  split at hok
  case isFalse => cases hok
  case isTrue =>
    obtain ⟨decorators, hgather, hok⟩ := exists_of_bind_eq_ok hok
    split at hok
    case isTrue => cases hok
    case isFalse =>
      obtain ⟨n, hset, rfl⟩ := exists_of_map_eq_ok hok
      obtain ⟨fields, hfields, rfl⟩ := Node.exists_of_setField_eq_ok hset
      have hgiven := rootsOf_last ((gather_yields _).of_ok hgather)
        ((expectNode_yields _ _).of_ok hlast)
      have hlaid := hitems.roots
      rw [hgiven] at hlaid
      obtain ⟨hdecorators, hdefinition⟩ := List.forall_mem_append.mp hlaid
      rw [List.forall_mem_singleton] at hdefinition
      have hself := hdefinition.self
      rw [roots, List.forall_mem_singleton]
      refine Node.everywhere_mk_iff.mpr
        ⟨⟨hself.covered, hself.spelled, ?_⟩, fun child hchild => ?_⟩
      · intro field hfield child hchild hother
        exact hself.encloses field (Node.mem_of_replaceField? hfields hfield hother) child hchild
          hother
      · rcases Node.mem_childrenOf_of_replaceField? hfields hchild with hold | hnew
        · exact hdefinition.child hold
        · exact hdecorators child hnew

/-! ## Steps -/

/-- All other steps make their nodes at their own range, around what lies in it. -/
theorem laidIn_of_derived {n : Node} (hif : r.rule ≠ .ifStmt) (hchain : r.rule ≠ .attrChain)
    (hdecorated : r.rule ≠ .decorated) (hitems : InOrder clauses r.position items)
    (hformed : ∀ n ∈ rootsOf items, n.Everywhere Node.WellFormed)
    (h : Derived Formed (Places r items) (rootsOf items) .read n) :
    n.Everywhere (Node.LaidIn clauses r.position) := by
  refine h.everywhere_of_outline hformed hitems.roots
    (fun houtline => Node.LaidIn.of_outline houtline) ?_
  intro construct fields position _ hplace hchildren
  cases hplace with
  | event spelled =>
      exact .made (.refl _) (fun hname => hitems.spelled (spelled hname))
        fun child hchild => (hchildren child hchild).self.covered
  | clause rule => exact absurd rule hif
  | link rule => exact absurd rule hchain
  | definition rule => exact absurd rule hdecorated

theorem laidIn_of_apply (hok : apply options rule position items = .ok result)
    (hformed : ∀ n ∈ rootsOf items, n.Everywhere Node.WellFormed)
    (hitems : InOrder clauses position items) :
    ∀ n ∈ result.roots, n.Everywhere (Node.LaidIn clauses position) := by
  have hschema : FollowSchema items := fun n hn => (hformed n hn).followsSchema
  have hhandler := handlerOf_eq_ok hok
  -- Three rules also place nodes elsewhere; of all others it is enough to know the derivation.
  by_cases hif : rule = .ifStmt
  · subst hif
    exact laidIn_of_ifStatement (r := ⟨.ifStmt, position, options⟩) hitems hhandler
  by_cases hchain : rule = .attrChain
  · subst hchain
    exact laidIn_of_attributeChain (r := ⟨.attrChain, position, options⟩) hitems hschema hhandler
  by_cases hdecorated : rule = .decorated
  · subst hdecorated
    exact laidIn_of_decorated (r := ⟨.decorated, position, options⟩) hitems hhandler
  intro n hn
  have hderived := (reduces_of_apply hschema hok).derived shapes_formed
    (fun m hm => (hformed m hm).self) n hn
  exact laidIn_of_derived hif hchain hdecorated hitems hformed hderived

/-- A step hands on what lies in its range. -/
theorem laidAt_of_apply (hok : apply options rule position items = .ok result)
    (hclause : rule = .elifClause → clauses position)
    (hformed : ∀ n ∈ rootsOf items, n.Everywhere Node.WellFormed)
    (hitems : InOrder clauses position items) : result.LaidAt clauses position := by
  have hschema : FollowSchema items := fun n hn => (hformed n hn).followsSchema
  have hanswers := (reduces_of_apply hschema hok).answers
  have hnodes := laidIn_of_apply hok hformed hitems
  refine ⟨hnodes, fun hspells => ?_, ?_, ?_⟩
  · cases hanswers with
    | node n =>
        have hself := (hnodes n List.mem_cons_self).self
        exact (hself.spelled hspells).mono (.refl _) hself.covered.2
    | dotted path spelled => exact hitems.spelled spelled
    | _ => cases hspells
  · rintro t rfl
    cases hanswers
  · rintro test body place rfl
    cases hanswers with
    | elif rule => exact ⟨rfl, hclause rule⟩

/-! ## Trees -/

namespace ParseTree

variable {name : String} {children : List ParseTree} {child : ParseTree}

theorem LaidOut.of_child (h : (ParseTree.rule name children position).LaidOut)
    (hchild : child ∈ children) : child.LaidOut := by
  have hbranch : ∀ b ∈ child.branches, b ∈ (ParseTree.rule name children position).branches :=
    fun b hb => mem_branches_rule.mpr (.inl ⟨child, hchild, hb⟩)
  exact ⟨h.nested.child hchild, fun b hb => h.tokens b (hbranch b hb),
    fun b hb => h.ordered b (hbranch b hb)⟩

/-- Where all tokens have ranges, placeholders alone have none. -/
theorem eq_absent_of_range? (htoken : ∀ t ∈ child.leaf?, t.position.Proper)
    (h : child.range? = none) : child = .absent := by
  cases child with
  | absent => rfl
  | rule => cases h
  | token t => simp [range?, (htoken t rfl).1] at h

end ParseTree

theorem inOrder_of_reducts {children : List ParseTree} (h : Reducts options children items)
    (htokens : ∀ child ∈ children, ∀ t ∈ child.leaf?, t.position.Proper)
    (hcovers : ∀ child ∈ children, ∀ range ∈ child.range?, outer.Covers range)
    (hordered : children.Pairwise fun child later =>
      ∀ range ∈ child.range?, ∀ other ∈ later.range?, range.stop ≤ other.start)
    (hlaid : ∀ child ∈ children, ∀ {item}, reduce options child = .ok item →
      ∀ range ∈ child.range?, item.LaidAt clauses range) : InOrder clauses outer items := by
  induction h with
  | nil => exact .nil
  | @cons child item rest others hhead hrests ih =>
      simp only [List.forall_mem_cons] at htokens hcovers hlaid
      obtain ⟨hbehind, hrest⟩ := List.pairwise_cons.mp hordered
      have hothers := ih htokens.2 hcovers.2 hrest hlaid.2
      cases hrange : child.range? with
      | none =>
          obtain rfl := ParseTree.eq_absent_of_range? htokens.1 hrange
          rw [reduce] at hhead
          cases hhead
          exact .absent hothers
      | some range =>
          refine .item (hcovers.1 range hrange) (hlaid.1 hhead range hrange) ?_ hothers
          intro later hlater
          obtain ⟨tree, htree, hreduced⟩ := exists_of_forall₂_right hrests hlater
          cases hother : tree.range? with
          | none =>
              obtain rfl := ParseTree.eq_absent_of_range? (htokens.2 tree htree) hother
              rw [reduce] at hreduced
              cases hreduced
              exact .inl rfl
          | some other =>
              exact .inr ⟨other, hbehind tree htree range hrange other hother,
                hlaid.2 tree htree hreduced other hother⟩

/-- In a tree that is laid out, what a tree reduces to is laid out in its range. -/
theorem laidAt_of_reduce {tree : ParseTree} (hlaid : tree.LaidOut)
    (htoken : ∀ t ∈ tree.leaf?, t.position.Proper)
    (hclauses : ∀ b ∈ tree.branches, Rule.ofName? b.name = some .elifClause → clauses b.position)
    (h : reduce options tree = .ok result) :
    ∀ range ∈ tree.range?, result.LaidAt clauses range := by
  induction tree using ParseTree.induction_children generalizing result with
  | absent => simp [ParseTree.range?]
  | token t =>
      rw [reduce] at h
      cases h
      have hproper := htoken t rfl
      simp only [ParseTree.range?, hproper.1, if_false, Option.mem_def, Option.some.injEq,
        forall_eq']
      exact ⟨by simp, fun _ => ⟨_, hproper, .refl _, le_rfl⟩, by rintro _ ⟨rfl⟩; rfl, by simp⟩
  | rule name children position ih =>
      rintro _ ⟨rfl⟩
      obtain ⟨items, hitems, hresult⟩ := reduce_rule_eq_ok h
      have hself : ⟨name, children, position⟩ ∈ (ParseTree.rule name children position).branches :=
        ParseTree.mem_branches_rule.mpr (.inr rfl)
      have htokens := hlaid.tokens _ hself
      have horder : InOrder clauses position items := by
        refine inOrder_of_reducts hitems htokens (hlaid.nested _ hself) (hlaid.ordered _ hself)
          fun child hchild item hitem => ?_
        refine ih child hchild (hlaid.of_child hchild) (htokens child hchild) (fun b hb => ?_) hitem
        exact hclauses b (ParseTree.mem_branches_rule.mpr (.inl ⟨child, hchild, hb⟩))
      rcases hresult with ⟨rule, hname, hok⟩ | ⟨_, rfl⟩
      · have hclause : rule = .elifClause → clauses position := by
          rintro rfl
          exact hclauses _ hself hname
        exact laidAt_of_apply hok hclause (forall_rootsOf_of_reducts hitems fun _ _ _ =>
          everywhere_wellFormed_of_reduce) horder
      · exact ⟨horder.roots, fun hspells => hspells.elim, by simp, by simp⟩

/-- A range is that of an `elif` clause in a tree. -/
def ParseTree.ElifAt (tree : ParseTree) (range : Position) : Prop :=
  ∃ b ∈ tree.branches, Rule.ofName? b.name = some .elifClause ∧ b.position = range

/-- A tree that is laid out is lowered to nodes that enclose what they hold, apart from
decorators, and from the alternative of a conditional at the range of a clause of the tree. -/
theorem encloses_of_transform (options : Options) {tree : ParseTree} {module : Node}
    (hlaid : tree.LaidOut) (h : transform options tree = .ok module) :
    ∀ n ∈ module.subtrees, n.Encloses tree.ElifAt := by
  have hreduced := reduce_of_transform h
  cases tree with
  | absent | token =>
      rw [reduce] at hreduced
      cases hreduced
  | rule name children position =>
      have hmodule : (Reduced.node module).LaidAt (ParseTree.rule name children position).ElifAt
          position := laidAt_of_reduce hlaid (by simp [ParseTree.leaf?])
        (fun b hb hname => ⟨b, hb, hname, rfl⟩) hreduced position rfl
      exact fun n hn => (hmodule.nodes module List.mem_cons_self n hn).encloses

/-- A conditional with one further condition and an `else`, each on a line of its own. -/
def conditionalTree : ParseTree :=
  .rule "file_input" [.rule "if_stmt" [
    .rule "const_true" [.token ⟨"TRUE", "True", ⟨1, 4, 1, 8⟩⟩] ⟨1, 4, 1, 8⟩,
    .rule "pass_stmt" [] ⟨2, 3, 2, 7⟩,
    .rule "elif_clause" [.rule "const_false" [] ⟨3, 6, 3, 11⟩, .rule "pass_stmt" [] ⟨4, 3, 4, 7⟩]
      ⟨3, 1, 4, 7⟩,
    .absent,
    .rule "else_clause" [.rule "pass_stmt" [] ⟨6, 3, 6, 7⟩] ⟨5, 1, 6, 7⟩] ⟨1, 1, 6, 7⟩] ⟨1, 1, 6, 7⟩

theorem laidOut_conditionalTree : conditionalTree.LaidOut :=
  ⟨by decide, by decide, by decide⟩

/-- All its nodes enclose what they hold, or are made of the further condition. -/
theorem encloses_of_transform_conditional :
    ∃ module, transform .default conditionalTree = .ok module ∧
      ∀ n ∈ module.subtrees, n.Encloses conditionalTree.ElifAt :=
  ⟨_, rfl, encloses_of_transform .default laidOut_conditionalTree rfl⟩

/-- The conditional made of the further condition holds the `else`, which lies outside of it. -/
theorem alternative_not_covered :
    conditionalTree.LaidOut ∧ ∃ module, transform .default conditionalTree = .ok module ∧
      ∃ n ∈ module.subtrees, n.construct = .ifStmt ∧ ∃ field ∈ n.fields, field.1 = "orelse" ∧
        ∃ child ∈ field.2.children, ¬ n.position.Covers child.position := by
  refine ⟨laidOut_conditionalTree, _, rfl, ?_⟩
  decide

/-- The statement `a.b.c`, where the range of the token `b` ends before it starts. -/
def backwardChain : ParseTree :=
  .rule "file_input" [.rule "expr_stmt" [.rule "attr_chain" [
    .rule "var" [.token ⟨"NAME", "a", ⟨1, 1, 1, 4⟩⟩] ⟨1, 1, 1, 4⟩,
    .token ⟨"NAME", "b", ⟨1, 5, 1, 3⟩⟩,
    .token ⟨"NAME", "c", ⟨1, 6, 1, 7⟩⟩] ⟨1, 1, 1, 7⟩] ⟨1, 1, 1, 7⟩] ⟨1, 1, 1, 7⟩

/-- It is not enough that the tokens of a tree have positions: the access to `b` ends where
that token does, and so before the base that it holds. -/
theorem backward_link_not_covering :
    backwardChain.Nested ∧ (∀ b ∈ backwardChain.branches, b.children.Pairwise fun child later =>
        ∀ range ∈ child.range?, ∀ other ∈ later.range?, range.stop ≤ other.start) ∧
      ∃ module, transform .default backwardChain = .ok module ∧
        ∃ n ∈ module.subtrees, n.construct = .attribute ∧
          ∃ child ∈ n.children, ¬ n.position.Covers child.position := by
  refine ⟨by decide, by decide, _, rfl, ?_⟩
  decide

end TreeLowering
