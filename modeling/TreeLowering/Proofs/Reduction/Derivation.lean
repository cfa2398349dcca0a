/-
# Derived nodes

Every node that a reduction hands on is derived from the nodes of its parts: it is one of
them, it stands in one of them, it is bound to a usage, or it is made from derived nodes
that are read, or are targets where the catalogue of places calls for targets. What
holds of the parts, and is kept by binding and by making, holds of all derived nodes.

The rules are gone through once, for whatever passes from the parts of a reduction into the
nodes that it builds. Being derived is one such property.
-/

import TreeLowering.Proofs.Reduction.Rules
import TreeLowering.Proofs.Tree.Usage

namespace TreeLowering

open TreeLowering.Lowering TreeLowering.Reduced

/-! ## Shapes -/

/-- What is said about the fields of single nodes: at least how they are named, and at most
that they are well formed. The two rules that build on a finished node keep it. -/
structure Shapes (shaped : Construct → List (String × Value) → Prop) : Prop where
  slots {construct : Construct} {fields : List (String × Value)}
    (h : shaped construct fields) : fields.map (·.1) = construct.slots
  formed {construct : Construct} {fields : List (String × Value)}
    (h : Formed construct fields) : shaped construct fields
  twin {construct twin : Construct} {fields : List (String × Value)}
    (h : shaped construct fields) (htwin : construct.asyncTwin? = some twin) :
    shaped twin fields
  decorated {construct : Construct} {fields replaced : List (String × Value)}
    {decorators : List Node} (h : shaped construct fields)
    (hreplaced : Node.replaceField? "decorator_list" (.list decorators) fields = some replaced) :
    shaped construct replaced

/-- The names of the slots alone are such a shape. -/
theorem shapes_slots : Shapes fun construct fields => fields.map (·.1) = construct.slots where
  slots h := h
  formed h := h.map_fst_eq
  twin h htwin := h.trans (Construct.slots_of_asyncTwin? htwin).symm
  decorated h hreplaced := (Node.map_fst_of_replaceField? hreplaced).2.trans h

/-- Well-formed fields are such a shape. -/
theorem shapes_formed : Shapes Formed where
  slots h := h.map_fst_eq
  formed h := h
  twin h htwin := by
    cases h with
    | forLoop kind target iterable body orelse =>
        rcases kind with rfl | rfl <;> cases htwin
        exact .forLoop (.inr rfl) target iterable body orelse
    | withBlock kind body items =>
        rcases kind with rfl | rfl <;> cases htwin
        exact .withBlock (.inr rfl) body items
    | function kind name body decorators returns signature =>
        rcases kind with rfl | rfl <;> cases htwin
        exact .function (.inr rfl) name body decorators returns signature
    | display kind | branching kind | optionalValue kind | scope kind =>
        rcases kind with rfl | rfl <;> cases htwin
    | elementComprehension kind | keywordStmt kind | requiredValue kind =>
        rcases kind with rfl | rfl | rfl <;> cases htwin
    | _ => cases htwin
  decorated h hreplaced := by
    cases h with
    | function kind name body _ returns signature =>
        obtain rfl := Option.some.inj hreplaced
        exact .function kind name body _ returns signature
    | classDef name body _ classified =>
        obtain rfl := Option.some.inj hreplaced
        exact .classDef name body _ classified
    | _ => cases hreplaced

/-! ## Derived nodes -/

/-- The nodes that a reduction can make out of given ones, each with the usage it is made
for. -/
inductive Derived (shaped : Construct → List (String × Value) → Prop)
    (placed : Construct → Position → Prop) (given : List Node) : Usage → Node → Prop
  | given {n : Node} (member : n ∈ given) : Derived shaped placed given .read n
  | bound {n m : Node} {u : Usage} (source : Derived shaped placed given .read n)
      (bound : n.bind u = .ok m) : Derived shaped placed given u m
  | part {n child : Node} {u : Usage} {field : String × Value}
      (whole : Derived shaped placed given u n) (member : field ∈ n.fields)
      (inside : child ∈ field.2.children) :
      Derived shaped placed given (n.calledFor field.1) child
  | made {construct : Construct} {fields : List (String × Value)} {position : Position}
      (shape : shaped construct fields) (place : placed construct position)
      (reads : (Node.mk construct fields position).HasUsage .read)
      (parts : ∀ field ∈ fields, ∀ child ∈ field.2.children,
        Derived shaped placed given ((Node.mk construct fields position).calledFor field.1) child) :
      Derived shaped placed given .read (.mk construct fields position)

namespace Derived

variable {shaped : Construct → List (String × Value) → Prop}
  {placed : Construct → Position → Prop} {given : List Node} {u : Usage} {n : Node}

/-- What holds everywhere in the given nodes, and is kept by binding and by making, holds
everywhere in the derived ones. -/
theorem everywhere {holds : Node → Prop} (hgiven : ∀ n ∈ given, n.Everywhere holds)
    (hbind : ∀ {n m : Node} {u : Usage}, n.Everywhere holds → n.bind u = .ok m →
      m.Everywhere holds)
    (hmade : ∀ {construct fields position}, shaped construct fields → placed construct position →
      (∀ child ∈ childrenOf fields, child.Everywhere holds) →
      holds (.mk construct fields position))
    (h : Derived shaped placed given u n) : n.Everywhere holds := by
  induction h with
  | given member => exact hgiven _ member
  | bound _ bound ih => exact hbind ih bound
  | part _ member inside ih => exact ih.child (mem_childrenOf.mpr ⟨_, _, member, inside⟩)
  | @made construct fields position shape place _ _ ih =>
      have hchildren : ∀ child ∈ childrenOf fields, child.Everywhere holds := by
        intro child hchild
        obtain ⟨slot, value, hfield, hvalue⟩ := mem_childrenOf.mp hchild
        exact ih (slot, value) hfield child hvalue
      exact Node.everywhere_mk_iff.mpr ⟨hmade shape place hchildren, hchildren⟩

/-- What holds everywhere in the given nodes, depends on outlines alone and is kept by making,
holds everywhere in the derived ones. -/
theorem everywhere_of_outline {holds : Node → Prop}
    (hformed : ∀ n ∈ given, n.Everywhere Node.WellFormed)
    (hgiven : ∀ n ∈ given, n.Everywhere holds)
    (hkeeps : ∀ {n m : Node}, Node.SameOutline n m → holds n → holds m)
    (hmade : ∀ {construct fields position}, Formed construct fields → placed construct position →
      (∀ child ∈ childrenOf fields, child.Everywhere holds) →
      holds (.mk construct fields position))
    (h : Derived Formed placed given u n) : n.Everywhere holds := by
  suffices hboth : n.Everywhere fun m => m.WellFormed ∧ holds m from
    (Node.everywhere_and.mp hboth).2
  refine h.everywhere ?_ ?_ ?_
  · exact fun n hn => Node.everywhere_and.mpr ⟨hformed n hn, hgiven n hn⟩
  · intro n m u hn hbound
    obtain ⟨hself, hkept⟩ := Node.everywhere_and.mp hn
    exact Node.everywhere_and.mpr
      ⟨Node.bind_wellFormed hself hbound, Node.bind_everywhere hkeeps hself hbound hkept⟩
  · intro construct fields position hshape hplace hchildren
    refine ⟨hshape, hmade hshape hplace fun child hchild => ?_⟩
    exact (Node.everywhere_and.mp (hchildren child hchild)).2

/-- Derived nodes have the usage they are made for, and all their places are right. -/
theorem placesUsage (hformed : ∀ n ∈ given, n.Everywhere Node.WellFormed)
    (hreads : ∀ n ∈ given, n.HasUsage .read)
    (hplaces : ∀ n ∈ given, n.Everywhere Node.PlacesUsage) (h : Derived Formed placed given u n) :
    n.HasUsage u ∧ n.Everywhere Node.PlacesUsage := by
  induction h with
  | given member => exact ⟨hreads _ member, hplaces _ member⟩
  | bound source bound ih =>
      have hsource := source.everywhere hformed Node.bind_wellFormed fun hshape _ _ => hshape
      exact Node.bind_placesUsage hsource ih.2 ih.1 bound
  | part _ member inside ih =>
      have hchild := mem_childrenOf.mpr ⟨_, _, member, inside⟩
      exact ⟨(ih.2.self _ member _ inside).1, ih.2.child hchild⟩
  | @made construct fields position shape _ reads _ ih =>
      refine ⟨reads, Node.everywhere_mk_iff.mpr ⟨fun field hfield child hchild => ?_, ?_⟩⟩
      · refine ⟨(ih field hfield child hchild).1, fun hshared hnot => ?_⟩
        exact absurd (reads.usage?_eq (Construct.hasSlot_ctx_of_sharedSlot? hshared)) hnot
      · intro child hchild
        obtain ⟨slot, value, hfield, hvalue⟩ := mem_childrenOf.mp hchild
        exact (ih (slot, value) hfield child hvalue).2

end Derived

/-! ## Nodes in slots -/

/-- All nodes in the slots of a node hold for the usages that the slots call for. -/
def Node.HoldsFor (holds : Usage → Node → Prop) (n : Node) : Prop :=
  ∀ field ∈ n.fields, ∀ child ∈ field.2.children, holds (n.calledFor field.1) child

section Slots

variable {holds : Usage → Node → Prop} {construct : Construct} {fields : List (String × Value)}
  {position : Position}

theorem Node.HoldsFor.child {holds : Node → Prop} {n child : Node}
    (h : n.HoldsFor fun _ => holds) (hchild : child ∈ n.children) : holds child := by
  obtain ⟨slot, value, hfield, hvalue⟩ := mem_childrenOf.mp hchild
  exact h (slot, value) hfield child hvalue

/-- In a node without targets all nodes are read. -/
theorem Node.holdsFor_of_plain (hnone : construct.targetSlot? = none)
    (hreads : (Node.mk construct fields position).HasUsage .read)
    (hparts : ∀ child ∈ childrenOf fields, holds .read child) :
    (Node.mk construct fields position).HoldsFor holds := by
  intro field hfield child hchild
  rw [Node.calledFor_of_reads hreads hnone]
  exact hparts child (mem_childrenOf.mpr ⟨_, _, hfield, hchild⟩)

/-- In a node with a slot for targets all nodes elsewhere are read. -/
theorem Node.holdsFor_of_targets {slot : String} {u : Usage}
    (hslot : construct.targetSlot? = some (slot, u))
    (htargets : ∀ child ∈ childrenOf (fields.filter (·.1 = slot)), holds u child)
    (hothers : ∀ child ∈ childrenOf (fields.filter (·.1 ≠ slot)), holds .read child) :
    (Node.mk construct fields position).HoldsFor holds := by
  intro field hfield child hchild
  have hcalled : (Node.mk construct fields position).calledFor field.1 =
      if field.1 = slot then u else .read := by
    rw [Node.calledFor, Node.construct, hslot]
  rw [hcalled]
  split
  case isTrue heq =>
    have hmem : field ∈ fields.filter (·.1 = slot) := List.mem_filter.mpr ⟨hfield, by simpa⟩
    exact htargets child (mem_childrenOf.mpr ⟨_, _, hmem, hchild⟩)
  case isFalse hne =>
    have hmem : field ∈ fields.filter (·.1 ≠ slot) := List.mem_filter.mpr ⟨hfield, by simpa⟩
    exact hothers child (mem_childrenOf.mpr ⟨_, _, hmem, hchild⟩)

end Slots

/-! ## Nodes built on the way -/

/-- The constructs that a rule makes nodes of on the way to the node that it builds. -/
def Rule.MakesInside (rule : Rule) (construct : Construct) : Prop :=
  construct ∈ [.name, .attribute, .tuple, .arguments] ∨ rule = .ifStmt ∧ construct = .ifStmt

theorem Rule.MakesInside.targetSlot?_eq_none {rule : Rule} {construct : Construct}
    (h : rule.MakesInside construct) : construct.targetSlot? = none := by
  simp only [Rule.MakesInside, List.mem_cons, List.not_mem_nil, or_false] at h
  rcases h with (rfl | rfl | rfl | rfl) | ⟨-, rfl⟩ <;> rfl

/-- What passes from the nodes of the parts into everything that a reduction builds: what the
parts hold, binding keeps, and a node that is made on the way takes over from its own parts. -/
structure PassesOn (r : Reduction) (items : List Reduced) (holds : Usage → Node → Prop) :
    Prop where
  given {n : Node} (member : n ∈ rootsOf items) : holds .read n
  bound {n m : Node} {u : Usage} (source : holds .read n) (bound : n.bind u = .ok m) : holds u m
  part {n : Node} {u : Usage} (whole : holds u n) : n.HoldsFor holds
  made {construct : Construct} {fields : List (String × Value)} {position : Position}
    (inside : r.rule.MakesInside construct) (shape : Formed construct fields)
    (place : Places r items construct position)
    (reads : (Node.mk construct fields position).HasUsage .read)
    (parts : ∀ child ∈ childrenOf fields, holds .read child) :
    holds .read (.mk construct fields position)

/-- Being derived passes on. -/
theorem Derived.passesOn {shaped : Construct → List (String × Value) → Prop}
    (hshaped : Shapes shaped) (r : Reduction) (items : List Reduced) :
    PassesOn r items (Derived shaped (Places r items) (rootsOf items)) where
  given := .given
  bound := .bound
  part whole _ member _ inside := .part whole member inside
  made inside shape place reads parts :=
    .made (hshaped.formed shape) place reads
      (Node.holdsFor_of_plain inside.targetSlot?_eq_none reads parts)

theorem Lowering.Signature.Collects.formed {s : Signature} {nodes : List Node}
    (h : s.Collects nodes) : Formed .arguments s.fields :=
  .arguments h.parameter h.paired h.fitting

section Parts

variable {r : Reduction} {items : List Reduced} {holds : Usage → Node → Prop}
  {nodes : List Node} {n : Node}

theorem Expresses.passes (hpasses : PassesOn r items holds) (h : Expresses r nodes n)
    (hnodes : ∀ m ∈ nodes, holds .read m) : holds .read n := by
  cases h with
  | single => exact hnodes n List.mem_cons_self
  | tuple =>
      exact hpasses.made (.inl (by decide)) (.display (.inr rfl) _ _) (.event nofun) rfl
        (by simpa using hnodes)

theorem Returns.passes (hpasses : PassesOn r items holds) {value : Option Node}
    (h : Returns r nodes value) (hnodes : ∀ m ∈ nodes, holds .read m) :
    ∀ m ∈ value.toList, holds .read m := by
  cases h with
  | nothing => simp
  | something expressed => simpa using expressed.passes hpasses hnodes

theorem Targets.passes (hpasses : PassesOn r items holds) {usage : Usage}
    (h : Targets r usage nodes n) (hnodes : ∀ m ∈ nodes, holds .read m) : holds usage n := by
  obtain ⟨target, expressed, bound⟩ := h
  exact hpasses.bound (expressed.passes hpasses hnodes) bound

theorem Linked.passes (hpasses : PassesOn r items holds) {base : Node}
    (h : Linked (Places r items .attribute) base n) (hbase : holds .read base) :
    holds .read n := by
  induction h with
  | base => exact hbase
  | link _ attr place ih =>
      exact hpasses.made (.inl (by decide)) (.access _ attr .read) place rfl (by simpa using ih)

/-- A dotted path is made from no nodes. -/
theorem Linked.passes_of_name (hpasses : PassesOn r items holds) {id : String}
    (hspelled : ∃ item ∈ items, item.Spells)
    (h : Linked (Places r items .attribute)
      (.mk .name [("id", .text id), ("ctx", .usage .read)] r.position) n) : holds .read n :=
  h.passes hpasses (hpasses.made (.inl (by decide)) (.name id .read) (.event fun _ => hspelled)
    rfl (by simp))

theorem Branches.passes (hpasses : PassesOn r items holds) (hrule : r.rule = .ifStmt)
    {orelse : List Node} (h : Branches (Places r items .ifStmt) nodes orelse)
    (hnodes : ∀ m ∈ nodes, holds .read m) : ∀ m ∈ orelse, holds .read m := by
  induction h with
  | block => exact hnodes
  | elif test body place _ ih =>
      simp only [List.forall_mem_append, List.forall_mem_singleton] at hnodes
      obtain ⟨htest, hbody, hrest⟩ := hnodes
      rw [List.forall_mem_singleton]
      refine hpasses.made (.inr ⟨hrule, rfl⟩) (.branching (.inl rfl) test body _) place rfl ?_
      simpa [List.forall_mem_append, or_imp, forall_and] using ⟨htest, hbody, ih hrest⟩

theorem Signs.passes (hpasses : PassesOn r items holds) (h : Signs r.position nodes n)
    (hnodes : ∀ m ∈ nodes, holds .read m) : holds .read n := by
  cases h with
  | finished => exact hnodes n List.mem_cons_self
  | collected collects =>
      apply hpasses.made (.inl (by decide)) collects.formed (.event nofun) rfl
      intro child hchild
      exact hnodes child (collects.placed.subset hchild)

end Parts

/-! ## Built nodes -/

theorem Signs.construct_eq {position : Position} {nodes : List Node} {args : Node}
    (h : Signs position nodes args) : args.construct = .arguments := by
  cases h with
  | finished kind => exact kind
  | collected => rfl

/-- Telling keywords apart classifies them. -/
theorem classified_filter (nodes : List Node) :
    Classified (nodes.filter fun n => !isKeyword n) (nodes.filter isKeyword) := by
  constructor <;> intro n hn
  · simpa [isKeyword] using (List.mem_filter.mp hn).2
  · simpa [isKeyword] using (List.mem_filter.mp hn).2

variable {r : Reduction} {items : List Reduced} {construct : Construct}
  {fields : List (String × Value)}

/-- A reduction builds well-formed nodes, but for the one rule that takes the fields of a
finished statement. -/
theorem Builds.formed_or_twin (h : Builds r items construct fields) :
    Formed construct fields ∨ ∃ statement, rootsOf items = [statement] ∧
      statement.construct.asyncTwin? = some construct ∧ fields = statement.fields := by
  cases h with
  | constant literal => exact .inl (.constant literal)
  | joined => exact .inl (.constant rfl)
  | name id => exact .inl (.name id .read)
  | starred => exact .inl (.starred _ .read)
  | conditional => exact .inl (.ifExp _ _ _)
  | namedExpr => exact .inl (.namedExpr _ _)
  | requiredValue kind => exact .inl (.requiredValue kind _)
  | optionalValue kind => exact .inl (.optionalValue kind _)
  | access attr => exact .inl (.access _ attr .read)
  | subscript => exact .inl (.subscript _ _ .read)
  | slice => exact .inl (.slice _ _ _)
  | compare _ some comparison same => exact .inl (.compare _ some comparison same)
  | binOp _ binary => exact .inl (.binOp _ _ binary)
  | boolOp _ boolean several => exact .inl (.boolOp boolean several)
  | unaryOp _ unary => exact .inl (.unaryOp _ unary)
  | call | referenceCall => exact .inl (.call _ (classified_filter _))
  | keyword arg => exact .inl (.keyword arg _)
  | display kind => exact .inl (.display kind _ .read)
  | set => exact .inl (.set _)
  | dict => exact .inl (.dict (by simp))
  | @comprehension _ _ _ condition _ _ _ plain flag =>
      have hone : condition.toList.length ≤ 1 := by cases condition <;> simp
      exact .inl (.comprehension _ _ hone plain flag)
  | elementComprehension kind _ clauses => exact .inl (.elementComprehension kind _ clauses)
  | dictComp _ clauses => exact .inl (.dictComp _ _ clauses)
  | assign _ _ _ some => exact .inl (.assign _ some)
  | augAssign _ _ binary => exact .inl (.augAssign _ _ binary)
  | annAssign => exact .inl (.annAssign _ _ rfl)
  | raiseStmt _ caused => exact .inl (.raiseStmt caused)
  | assertStmt => exact .inl (.assertStmt _ _)
  | deleteStmt _ some => exact .inl (.deleteStmt some)
  | keywordStmt kind => exact .inl (.keywordStmt kind)
  | scope kind some => exact .inl (.scope kind some)
  | importName name asname => exact .inl (.importName name asname)
  | importStmt aliases => exact .inl (.importStmt aliases)
  | importFrom aliases counted relative => exact .inl (.importFrom aliases counted relative)
  | ifStmt => exact .inl (.branching (.inl rfl) _ _ _)
  | forStmt => exact .inl (.forLoop (.inl rfl) _ _ _ _)
  | whileStmt => exact .inl (.branching (.inr rfl) _ _ _)
  | tryStmt _ handling guarded => exact .inl (.tryStmt _ _ handling guarded)
  | exceptHandler _ _ typed => exact .inl (.exceptHandler _ typed)
  | withStmt _ entered => exact .inl (.withBlock (.inl rfl) _ entered)
  | withItem => exact .inl (.withItem _ _)
  | functionDef name _ _ signed =>
      exact .inl (.function (.inl rfl) name _ [] _ signed.construct_eq)
  | lambda _ signed => exact .inl (.lambda _ signed.construct_eq)
  | classDef name => exact .inl (.classDef name _ [] (classified_filter _))
  | arguments collects => exact .inl collects.formed
  | parameter arg => exact .inl (.parameter arg _)
  | twin given twin => exact .inr ⟨_, given, twin, rfl⟩
  | module => exact .inl (.module _)

variable {shaped : Construct → List (String × Value) → Prop}

/-- What a reduction builds stands at the range of the event. -/
theorem Builds.placed (h : Builds r items construct fields) :
    Places r items construct r.position := by
  refine .event fun hnames => ?_
  cases h with
  | name _ _ spelled | access _ _ _ spelled => exact spelled
  | requiredValue kind | elementComprehension kind | keywordStmt kind =>
      rcases kind with rfl | rfl | rfl <;> rcases hnames with h | h <;> cases h
  | optionalValue kind | display kind | scope kind =>
      rcases kind with rfl | rfl <;> rcases hnames with h | h <;> cases h
  | twin _ twin =>
      rw [Construct.asyncTwin?.eq_def] at twin
      split at twin <;> cases twin <;> rcases hnames with h | h <;> cases h
  | _ => rcases hnames with h | h <;> cases h

/-- What a reduction builds is read. -/
theorem Builds.reads (hslots : fields.map (·.1) = construct.slots)
    (h : Builds r items construct fields) (position : Position) :
    (Node.mk construct fields position).HasUsage .read := by
  cases h with
  | requiredValue kind | elementComprehension kind | keywordStmt kind =>
      rcases kind with rfl | rfl | rfl <;> rfl
  | optionalValue kind | display kind | scope kind => rcases kind with rfl | rfl <;> rfl
  | twin _ twin =>
      have hctx := (Construct.targetSlot?_of_asyncTwin? twin).2.2.2
      exact Node.hasUsage_of_not_hasSlot hslots hctx
  | _ => rfl

/-- Whatever passes on holds of all that a built node holds. -/
theorem Builds.passes {holds : Usage → Node → Prop} (hpasses : PassesOn r items holds)
    (hslots : fields.map (·.1) = construct.slots) (h : Builds r items construct fields)
    (position : Position) : (Node.mk construct fields position).HoldsFor holds := by
  have hreads := h.reads hslots position
  have hall : ∀ {nodes}, rootsOf items = nodes → ∀ n ∈ nodes, holds .read n := by
    rintro _ rfl n hn
    exact hpasses.given hn
  cases h with
  | constant | joined | name | importName => exact Node.holdsFor_of_plain rfl hreads (by simp)
  | keywordStmt kind =>
      rcases kind with rfl | rfl | rfl <;> exact Node.holdsFor_of_plain rfl hreads (by simp)
  | scope kind => rcases kind with rfl | rfl <;> exact Node.holdsFor_of_plain rfl hreads (by simp)
  | starred given | slice given | compare given | binOp given | boolOp given | unaryOp given
  | dictComp given | raiseStmt given | assertStmt given | whileStmt given | tryStmt given
  | withStmt given =>
      exact Node.holdsFor_of_plain rfl hreads (by simpa using hall given)
  | conditional given =>
      refine Node.holdsFor_of_plain rfl hreads fun child hchild => hall given child ?_
      simpa [or_left_comm] using hchild
  | namedExpr given bound =>
      have h := hall given
      simp only [List.forall_mem_cons] at h
      have htarget := hpasses.bound h.1 bound
      exact Node.holdsFor_of_targets rfl (by simpa using htarget) (by simpa using h.2.1)
  | requiredValue kind expressed =>
      have hvalue := expressed.passes hpasses (hall rfl)
      rcases kind with rfl | rfl | rfl <;>
        exact Node.holdsFor_of_plain rfl hreads (by simpa using hvalue)
  | optionalValue kind returned =>
      have hvalue := returned.passes hpasses (hall rfl)
      rcases kind with rfl | rfl <;>
        exact Node.holdsFor_of_plain rfl hreads (by simpa using hvalue)
  | access attr named given =>
      have hvalue := hall given _ List.mem_cons_self
      exact Node.holdsFor_of_plain rfl hreads (by simpa using hvalue)
  | subscript given expressed =>
      have h := List.forall_mem_cons.mp (hall given)
      have hindex := expressed.passes hpasses h.2
      exact Node.holdsFor_of_plain rfl hreads (by simpa using ⟨h.1, hindex⟩)
  | call given =>
      have h := List.forall_mem_cons.mp (hall given)
      refine Node.holdsFor_of_plain rfl hreads ?_
      simp only [childrenOf_cons, List.forall_mem_append]
      exact ⟨by simpa using h.1, fun n hn => h.2 n (List.mem_of_mem_filter hn),
        fun n hn => h.2 n (List.mem_of_mem_filter hn), by simp⟩
  | referenceCall id spelled reference =>
      refine Node.holdsFor_of_plain rfl hreads ?_
      simp only [childrenOf_cons, List.forall_mem_append]
      exact ⟨by simpa using reference.passes_of_name hpasses spelled,
        fun n hn => hall rfl n (List.mem_of_mem_filter hn),
        fun n hn => hall rfl n (List.mem_of_mem_filter hn), by simp⟩
  | keyword arg named given =>
      have hvalue := (List.forall_mem_append.mp (hall given)).2
      exact Node.holdsFor_of_plain rfl hreads (by simpa using hvalue)
  | display kind =>
      rcases kind with rfl | rfl <;>
        exact Node.holdsFor_of_plain rfl hreads (by simpa using hall rfl)
  | set | importStmt | importFrom | module =>
      exact Node.holdsFor_of_plain rfl hreads (by simpa using hall rfl)
  | dict given =>
      exact Node.holdsFor_of_plain rfl hreads fun child hchild =>
        hall given child (mem_entryNodes hchild)
  | comprehension given bound =>
      have h := hall given
      simp only [List.forall_mem_append, List.forall_mem_cons] at h
      obtain ⟨⟨htarget, hiterable, _⟩, hcondition⟩ := h
      have hplace := hpasses.bound htarget bound
      refine Node.holdsFor_of_targets rfl (by simpa using hplace) ?_
      simpa using And.intro hiterable hcondition
  | elementComprehension kind given =>
      rcases kind with rfl | rfl | rfl <;>
        exact Node.holdsFor_of_plain rfl hreads (by simpa using hall given)
  | assign given bound expressed =>
      have h := List.forall_mem_append.mp (hall given)
      have hvalue := expressed.passes hpasses h.2
      refine Node.holdsFor_of_targets rfl (fun place hplace => ?_) (by simpa using hvalue)
      obtain ⟨part, hpart, htarget⟩ := exists_of_forall₂_right bound (by simpa using hplace)
      exact htarget.passes hpasses fun n hn => h.1 n (mem_rootsOf.mpr ⟨part, hpart, hn⟩)
  | augAssign given bound _ expressed =>
      have h := List.forall_mem_cons.mp (hall given)
      have hvalue := expressed.passes hpasses h.2
      have hplace := hpasses.bound h.1 bound
      exact Node.holdsFor_of_targets rfl (by simpa using hplace) (by simpa using hvalue)
  | annAssign given bound =>
      have h := hall given
      simp only [List.forall_mem_append, List.forall_mem_cons] at h
      obtain ⟨⟨htarget, hhint, _⟩, hvalue⟩ := h
      have hplace := hpasses.bound htarget bound
      refine Node.holdsFor_of_targets rfl (by simpa using hplace) ?_
      simpa using And.intro hhint hvalue
  | deleteStmt bound =>
      refine Node.holdsFor_of_targets rfl (fun place hplace => ?_) (by simp)
      obtain ⟨target, htarget, hbound⟩ := exists_of_forall₂_right bound (by simpa using hplace)
      exact hpasses.bound (hpasses.given htarget) hbound
  | ifStmt given chain rule =>
      have h := hall given
      simp only [List.forall_mem_append, List.forall_mem_singleton] at h
      obtain ⟨htest, hbody, hrest⟩ := h
      refine Node.holdsFor_of_plain rfl hreads ?_
      simp only [childrenOf_cons, List.forall_mem_append]
      exact ⟨by simpa using htest, hbody, chain.passes hpasses rule hrest, by simp⟩
  | forStmt given bound expressed =>
      have h := hall given
      simp only [List.forall_mem_append] at h
      obtain ⟨htarget, hiterable, hbody, horelse⟩ := h
      have hvalue := expressed.passes hpasses hiterable
      have hplace := bound.passes hpasses htarget
      have hblocks := List.forall_mem_append.mpr ⟨hbody, horelse⟩
      refine Node.holdsFor_of_targets rfl (by simpa using hplace) ?_
      simpa using And.intro hvalue hblocks
  | exceptHandler named given =>
      have h := hall given
      simp only [List.forall_mem_append] at h
      have hparts := List.forall_mem_append.mpr ⟨h.1.1, h.2⟩
      exact Node.holdsFor_of_plain rfl hreads (by simpa using hparts)
  | withItem given bound =>
      have h := List.forall_mem_cons.mp (hall given)
      refine Node.holdsFor_of_targets rfl (fun place hplace => ?_) (by simpa using h.1)
      obtain ⟨target, htarget, hbound⟩ := exists_of_forall₂_right bound (by simpa using hplace)
      exact hpasses.bound (h.2 target htarget) hbound
  | functionDef name named given signed =>
      have h := hall given
      simp only [List.forall_mem_append] at h
      obtain ⟨_, ⟨hnodes, hreturns⟩, hbody⟩ := h
      have hargs := signed.passes hpasses hnodes
      refine Node.holdsFor_of_plain rfl hreads ?_
      simp only [childrenOf_cons, List.forall_mem_append]
      exact ⟨by simp, by simpa using hargs, hbody, by simp, by simpa using hreturns, by simp⟩
  | lambda given signed =>
      have h := List.forall_mem_append.mp (hall given)
      have hargs := signed.passes hpasses h.1
      have hbody := List.forall_mem_singleton.mp h.2
      exact Node.holdsFor_of_plain rfl hreads (by simpa using ⟨hargs, hbody⟩)
  | classDef name named given =>
      have h := hall given
      simp only [List.forall_mem_append] at h
      obtain ⟨_, hnodes, hbody⟩ := h
      refine Node.holdsFor_of_plain rfl hreads ?_
      simp only [childrenOf_cons, List.forall_mem_append]
      exact ⟨by simp, fun n hn => hnodes n (List.mem_of_mem_filter hn),
        fun n hn => hnodes n (List.mem_of_mem_filter hn), hbody, by simp, by simp⟩
  | arguments collects =>
      exact Node.holdsFor_of_plain rfl hreads fun child hchild =>
        hpasses.given (collects.placed.subset hchild)
  | parameter arg named given =>
      have h := List.forall_mem_append.mp (hall given)
      exact Node.holdsFor_of_plain rfl hreads (by simpa using h.2)
  | @twin statement _ given twin =>
      intro field hfield child hchild
      rw [Node.calledFor_of_asyncTwin? twin]
      exact hpasses.part (hall given statement List.mem_cons_self) field hfield child hchild

/-- What a reduction builds has the shape that the nodes of its parts have. -/
theorem Builds.keepsShape (hshaped : Shapes shaped)
    (hgiven : ∀ n ∈ rootsOf items, shaped n.construct n.fields)
    (h : Builds r items construct fields) : shaped construct fields := by
  rcases h.formed_or_twin with hformed | ⟨statement, hstatement, htwin, rfl⟩
  · exact hshaped.formed hformed
  · exact hshaped.twin (hgiven statement (by simp [hstatement])) htwin

/-- What a reduction builds is derived from the nodes of its parts. -/
theorem Builds.derived (hshaped : Shapes shaped)
    (hgiven : ∀ n ∈ rootsOf items, shaped n.construct n.fields)
    (h : Builds r items construct fields) :
    Derived shaped (Places r items) (rootsOf items) .read (.mk construct fields r.position) := by
  have hshape := h.keepsShape hshaped hgiven
  have hslots := hshaped.slots hshape
  exact .made hshape h.placed (h.reads hslots r.position)
    (h.passes (Derived.passesOn hshaped r items) hslots r.position)

/-- Whatever a reduction hands on is derived from the nodes of its parts. -/
theorem Reduces.derived (hshaped : Shapes shaped)
    (hgiven : ∀ n ∈ rootsOf items, shaped n.construct n.fields) {result : Reduced}
    (h : Reduces r items result) :
    ∀ n ∈ result.roots, Derived shaped (Places r items) (rootsOf items) .read n := by
  have hall : ∀ {nodes}, rootsOf items = nodes →
      ∀ n ∈ nodes, Derived shaped (Places r items) (rootsOf items) .read n := by
    rintro _ rfl n hn
    exact .given hn
  intro n hn
  cases h with
  | built builds =>
      rw [roots, List.mem_singleton] at hn
      subst hn
      exact builds.derived hshaped hgiven
  | passed _ kept => exact .given (kept ▸ hn)
  | barren _ empty => simp [empty] at hn
  | chained _ given linked =>
      rw [roots, List.mem_singleton] at hn
      subst hn
      exact linked.passes (Derived.passesOn hshaped r items) (.given given)
  | referred id _ spelled linked =>
      rw [roots, List.mem_singleton] at hn
      subst hn
      exact linked.passes_of_name (Derived.passesOn hshaped r items) spelled
  | @decorated decorators definition result rule given _ replaced =>
      rw [roots, List.mem_singleton] at hn
      subst hn
      obtain ⟨fields, hfields, rfl⟩ := Node.exists_of_setField_eq_ok replaced
      obtain ⟨hdecorators, hdefinition⟩ := List.forall_mem_append.mp (hall given)
      have hshape := hgiven definition (by simp [given])
      have hslot := (Node.map_fst_of_replaceField? hfields).1
      rw [hshaped.slots hshape] at hslot
      obtain ⟨hnone, hctx⟩ := Construct.targetSlot?_of_decorated hslot
      have hshape' := hshaped.decorated hshape hfields
      have hread : definition.HasUsage .read :=
        Node.hasUsage_of_not_hasSlot (hshaped.slots hshape) hctx
      have hread' : (Node.mk definition.construct fields definition.position).HasUsage .read :=
        Node.hasUsage_of_not_hasSlot (hshaped.slots hshape') hctx
      have hplace := Places.definition rule (given ▸ List.mem_append_right _ List.mem_cons_self)
      refine .made hshape' hplace hread' (Node.holdsFor_of_plain hnone hread' ?_)
      intro child hchild
      rcases Node.mem_childrenOf_of_replaceField? hfields hchild with hold | hnew
      · obtain ⟨slot, value, hfield, hvalue⟩ := mem_childrenOf.mp hold
        have hpart := Derived.part (hdefinition definition List.mem_cons_self) hfield hvalue
        rwa [Node.calledFor_of_reads hread hnone] at hpart
      · exact hdecorators child hnew

end TreeLowering
