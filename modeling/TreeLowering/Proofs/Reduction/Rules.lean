/-
# What a reduction does with nodes

The nodes that a reduction builds out of those at the top of its parts, stated as rules
that do not look at how the parts are taken. A rule names the nodes of the parts in
source order and the fields of the node that is built from them. Nodes read only for
their identifier are used up, and a target is bound on its way; all others are handed on.
-/

import TreeLowering.Lowering.Call
import TreeLowering.Lowering.Display
import TreeLowering.Lowering.Expression
import TreeLowering.Lowering.Signature
import TreeLowering.Proofs.Reduction.Parts

namespace TreeLowering

open TreeLowering.Lowering TreeLowering.Reduced

/-! ## Places -/

/-- Whether a part spells a name: a token, a dotted path, or a node that names something. -/
def Reduced.Spells : Reduced → Prop
  | .token _ | .dotted _ => True
  | .node n => n.construct = .name ∨ n.construct = .attribute
  | _ => False

/-- What is read for an identifier spells a name. -/
theorem Reduced.identifier_spells (what : String) (item : Option Reduced) :
    Yields (identifier what item) fun _ => ∃ part ∈ item, part.Spells := by
  rw [identifier.eq_def]
  split
  · exact .ok ⟨_, rfl, trivial⟩
  · rw [nameText]
    split
    case isTrue hname =>
      split
      · exact .ok ⟨_, rfl, .inl hname⟩
      · exact .error trivial
    case isFalse => exact .error trivial
  · exact .error trivial

theorem exists_spells_of_getElem? {items : List Reduced} {i : Nat}
    (h : ∃ part ∈ items[i]?, part.Spells) : ∃ item ∈ items, item.Spells := by
  obtain ⟨part, hpart, hspells⟩ := h
  exact ⟨part, List.mem_of_getElem? hpart, hspells⟩

/-- Where a reduction places the nodes that it makes: at the range of the event, with three
exceptions. A conditional stands where the clause stood that it is made of, a link of a
chain from the start of the base to the end of the step, and a definition that gets its
decorators stays where it was. Names are not made but from what spells them. -/
inductive Places (r : Reduction) (items : List Reduced) : Construct → Position → Prop
  | event {construct : Construct}
      (spelled : construct = .name ∨ construct = .attribute → ∃ item ∈ items, item.Spells) :
      Places r items construct r.position
  | clause {test : Node} {body : List Node} {position : Position} (rule : r.rule = .ifStmt)
      (member : .clause (.elif test body position) ∈ items) : Places r items .ifStmt position
  | link {base : Node} {item : Reduced} {attr : String} {step : Position}
      (rule : r.rule = .attrChain) (given : base ∈ rootsOf items) (member : item ∈ items)
      (taken : chainStep item = .ok (attr, step)) (isLast : Bool) :
      Places r items .attribute (linkPosition r base.position step isLast)
  | definition {n : Node} (rule : r.rule = .decorated) (given : n ∈ rootsOf items) :
      Places r items n.construct n.position

/-! ## Nodes built on the way -/

/-- A chain of attribute accesses that are read, from a base outwards, at given places. -/
inductive Linked (places : Position → Prop) (base : Node) : Node → Prop
  | base : Linked places base base
  | link {inner : Node} (chain : Linked places base inner) (attr : String) {position : Position}
      (place : places position) :
      Linked places base (.mk .attribute (accessFields inner attr .read) position)

/-- A chain on a chain is a chain. -/
theorem Linked.trans {places : Position → Prop} {base inner outer : Node}
    (first : Linked places base inner) (rest : Linked places inner outer) :
    Linked places base outer := by
  induction rest with
  | base => exact first
  | link _ attr place ih => exact ih.link attr place

/-- The block behind a condition: a plain one, or one conditional for each further
condition, at given places. -/
inductive Branches (places : Position → Prop) : List Node → List Node → Prop
  | block (statements : List Node) : Branches places statements statements
  | elif {rest orelse : List Node} (test : Node) (body : List Node) {position : Position}
      (place : places position) (chain : Branches places rest orelse) :
      Branches places ([test] ++ (body ++ rest))
        [.mk .ifStmt [("test", .node test), ("body", .list body), ("orelse", .list orelse)]
          position]

namespace Lowering.Signature

/-- The fields of the node of a signature. -/
def fields (s : Signature) : List (String × Value) := [
    ("posonlyargs", .list s.positionalOnly), ("args", .list s.positional),
    ("vararg", .ofOption s.star?.join), ("kwonlyargs", .list s.keywordOnly),
    ("kw_defaults", .sparse s.keywordDefaults), ("kwarg", .ofOption s.mapping?),
    ("defaults", .list s.defaults)]

/-- The parameters of a signature. -/
def parameters (s : Signature) : List Node :=
  s.positionalOnly ++ s.positional ++ s.star?.join.toList ++ s.keywordOnly ++ s.mapping?.toList

/-- A signature places every node of a parameter list: the parameters, and their
defaults beside them. -/
structure Collects (s : Signature) (nodes : List Node) : Prop where
  parameter : ∀ n ∈ s.parameters, n.construct = .parameter
  paired : s.keywordDefaults.length = s.keywordOnly.length
  fitting : s.defaults.length ≤ s.positionalOnly.length + s.positional.length
  placed : (childrenOf s.fields).Perm nodes

end Lowering.Signature

/-- The parameters of a definition: a finished node, or one of a signature. -/
inductive Signs (position : Position) : List Node → Node → Prop
  | finished {args : Node} (kind : args.construct = .arguments) : Signs position [args] args
  | collected {s : Signature} {nodes : List Node} (collects : s.Collects nodes) :
      Signs position nodes (.mk .arguments s.fields position)

/-- A value that may be missing. -/
inductive Returns (r : Reduction) : List Node → Option Node → Prop
  | nothing : Returns r [] none
  | something {nodes : List Node} {value : Node} (expressed : Expresses r nodes value) :
      Returns r nodes (some value)

/-- The nodes of the entries of a dict, in source order. -/
def Lowering.entryNodes (found : List Entry) : List Node :=
  found.flatMap fun entry => entry.1.toList ++ [entry.2]

@[simp]
theorem Lowering.entryNodes_cons (key : Option Node) (value : Node) (rest : List Entry) :
    entryNodes ((key, value) :: rest) = key.toList ++ value :: entryNodes rest := by
  simp [entryNodes]

/-- The keys and values of a dict are the nodes of its entries. -/
theorem Lowering.mem_entryNodes {found : List Entry} {child : Node}
    (h : child ∈ childrenOf [("keys", .sparse (found.map (·.1))),
      ("values", .list (found.map (·.2)))]) : child ∈ entryNodes found := by
  rw [entryNodes, List.mem_flatMap]
  simp only [childrenOf_cons, Value.children_sparse, Value.children_list, childrenOf_nil,
    List.append_nil, List.mem_append, List.mem_filterMap, List.mem_map, id_eq] at h
  rcases h with ⟨key, ⟨entry, hentry, rfl⟩, hkey⟩ | ⟨entry, hentry, rfl⟩
  · exact ⟨entry, hentry, by simp [hkey]⟩
  · exact ⟨entry, hentry, by simp⟩

/-- The target that nodes in the place of an expression become. -/
def Targets (r : Reduction) (usage : Usage) (nodes : List Node) (place : Node) : Prop :=
  ∃ target, Expresses r nodes target ∧ target.bind usage = .ok place

/-! ## Nodes built at the range of the event -/

/-- The node that a reduction builds at its own range, by construct and fields. -/
inductive Builds (r : Reduction) (items : List Reduced) :
    Construct → List (String × Value) → Prop
  | constant {value : Scalar} (literal : value.isLiteral) (given : rootsOf items = []) :
      Builds r items .constant [("value", .scalar value)]
  | joined (rule : r.rule = .stringConcat) (text : String) :
      Builds r items .constant [("value", .scalar (.text text))]
  | name (id : String) (given : Names (rootsOf items)) (spelled : ∃ item ∈ items, item.Spells) :
      Builds r items .name [("id", .text id), ("ctx", .usage .read)]
  | starred {value : Node} (given : rootsOf items = [value]) :
      Builds r items .starred [("value", .node value), ("ctx", .usage .read)]
  | conditional {body test orelse : Node} (given : rootsOf items = [body, test, orelse]) :
      Builds r items .ifExp [("test", .node test), ("body", .node body), ("orelse", .node orelse)]
  | namedExpr {target place value : Node} (given : rootsOf items = [target, value])
      (bound : target.bind .write = .ok place) :
      Builds r items .namedExpr [("target", .node place), ("value", .node value)]
  | requiredValue {construct : Construct} {value : Node}
      (kind : construct = .exprStmt ∨ construct = .yieldFrom ∨ construct = .awaitExpr)
      (expressed : Expresses r (rootsOf items) value) :
      Builds r items construct [("value", .node value)]
  | optionalValue {construct : Construct} {value : Option Node}
      (kind : construct = .returnStmt ∨ construct = .yieldExpr)
      (returned : Returns r (rootsOf items) value) :
      Builds r items construct [("value", .ofOption value)]
  | access {value : Node} {names : List Node} (attr : String) (named : Names names)
      (given : rootsOf items = value :: names) (spelled : ∃ item ∈ items, item.Spells) :
      Builds r items .attribute (accessFields value attr .read)
  | subscript {value index : Node} {nodes : List Node} (given : rootsOf items = value :: nodes)
      (expressed : Expresses r nodes index) :
      Builds r items .subscript
        [("value", .node value), ("slice", .node index), ("ctx", .usage .read)]
  | slice {lower upper step : Option Node}
      (given : rootsOf items = lower.toList ++ upper.toList ++ step.toList) :
      Builds r items .slice
        [("lower", .ofOption lower), ("upper", .ofOption upper), ("step", .ofOption step)]
  | compare {left : Node} {comparators : List Node} {ops : List Operator}
      (given : rootsOf items = left :: comparators) (some : ops ≠ [])
      (comparison : ∀ op ∈ ops, op.operatorClass = .comparison)
      (same : ops.length = comparators.length) :
      Builds r items .compare [("left", .node left), ("ops", .scalar (.operators ops)),
        ("comparators", .list comparators)]
  | binOp {left right : Node} {op : Operator} (given : rootsOf items = [left, right])
      (binary : op.operatorClass = .binary) :
      Builds r items .binOp [("left", .node left), ("op", .operator op), ("right", .node right)]
  | boolOp {values : List Node} {op : Operator} (given : rootsOf items = values)
      (boolean : op.operatorClass = .boolean) (several : 2 ≤ values.length) :
      Builds r items .boolOp [("op", .operator op), ("values", .list values)]
  | unaryOp {operand : Node} {op : Operator} (given : rootsOf items = [operand])
      (unary : op.operatorClass = .unary) :
      Builds r items .unaryOp [("op", .operator op), ("operand", .node operand)]
  | call {func : Node} {nodes : List Node} (given : rootsOf items = func :: nodes) :
      Builds r items .call [("func", .node func),
        ("args", .list (nodes.filter fun n => !isKeyword n)),
        ("keywords", .list (nodes.filter isKeyword))]
  | referenceCall {func : Node} (id : String) (spelled : ∃ item ∈ items, item.Spells)
      (reference : Linked (Places r items .attribute)
        (.mk .name [("id", .text id), ("ctx", .usage .read)] r.position) func) :
      Builds r items .call [("func", .node func),
        ("args", .list ((rootsOf items).filter fun n => !isKeyword n)),
        ("keywords", .list ((rootsOf items).filter isKeyword))]
  | keyword {value : Node} {names : List Node} (arg : Option String) (named : Names names)
      (given : rootsOf items = names ++ [value]) :
      Builds r items .keyword [("arg", .ofText? arg), ("value", .node value)]
  | display {construct : Construct} (kind : construct = .list ∨ construct = .tuple) :
      Builds r items construct [("elts", .list (rootsOf items)), ("ctx", .usage .read)]
  | set : Builds r items .set [("elts", .list (rootsOf items))]
  | dict {found : List Entry} (given : rootsOf items = entryNodes found) :
      Builds r items .dict
        [("keys", .sparse (found.map (·.1))), ("values", .list (found.map (·.2)))]
  | comprehension {target place iterable : Node} {condition : Option Node} {isAsync : Int}
      (given : rootsOf items = [target, iterable] ++ condition.toList)
      (bound : target.bind .write = .ok place)
      (plain : ∀ n ∈ condition.toList, n.construct ≠ .comprehension)
      (flag : isAsync = 0 ∨ isAsync = 1) :
      Builds r items .comprehension [("target", .node place), ("iter", .node iterable),
        ("ifs", .list condition.toList), ("is_async", .int isAsync)]
  | elementComprehension {construct : Construct} {element : Node} {generators : List Node}
      (kind : construct = .listComp ∨ construct = .setComp ∨ construct = .generatorExp)
      (given : rootsOf items = element :: generators)
      (clauses : SomeOf .comprehension generators) :
      Builds r items construct [("elt", .node element), ("generators", .list generators)]
  | dictComp {key value : Node} {generators : List Node}
      (given : rootsOf items = [key, value] ++ generators)
      (clauses : SomeOf .comprehension generators) :
      Builds r items .dictComp
        [("key", .node key), ("value", .node value), ("generators", .list generators)]
  | assign {parts : List Reduced} {targets nodes : List Node} {value : Node}
      (given : rootsOf items = rootsOf parts ++ nodes)
      (bound : List.Forall₂ (fun part place => Targets r .write part.roots place) parts targets)
      (expressed : Expresses r nodes value) (some : targets ≠ []) :
      Builds r items .assign [("targets", .list targets), ("value", .node value)]
  | augAssign {target place value : Node} {nodes : List Node} {op : Operator}
      (given : rootsOf items = target :: nodes) (bound : target.bind .write = .ok place)
      (binary : op.operatorClass = .binary) (expressed : Expresses r nodes value) :
      Builds r items .augAssign
        [("target", .node place), ("op", .operator op), ("value", .node value)]
  | annAssign {target place hint : Node} {value : Option Node}
      (given : rootsOf items = [target, hint] ++ value.toList)
      (bound : target.bind .write = .ok place) :
      Builds r items .annAssign [("target", .node place), ("annotation", .node hint),
        ("value", .ofOption value), ("simple", .int (if place.construct = .name then 1 else 0))]
  | raiseStmt {exc cause : Option Node} (given : rootsOf items = exc.toList ++ cause.toList)
      (caused : cause.isSome → exc.isSome) :
      Builds r items .raiseStmt [("exc", .ofOption exc), ("cause", .ofOption cause)]
  | assertStmt {test : Node} {msg : Option Node} (given : rootsOf items = test :: msg.toList) :
      Builds r items .assertStmt [("test", .node test), ("msg", .ofOption msg)]
  | deleteStmt {targets : List Node}
      (bound : List.Forall₂ (fun n place => n.bind .delete = .ok place) (rootsOf items) targets)
      (some : targets ≠ []) : Builds r items .deleteStmt [("targets", .list targets)]
  | keywordStmt {construct : Construct}
      (kind : construct = .passStmt ∨ construct = .breakStmt ∨ construct = .continueStmt)
      (given : rootsOf items = []) : Builds r items construct []
  | scope {construct : Construct} {names : List String}
      (kind : construct = .globalStmt ∨ construct = .nonlocalStmt) (some : names ≠ [])
      (given : Names (rootsOf items)) :
      Builds r items construct [("names", .scalar (.identifiers names))]
  | importName (name : String) (asname : Option String) (given : Names (rootsOf items)) :
      Builds r items .importName [("name", .text name), ("asname", .ofText? asname)]
  | importStmt (aliases : SomeOf .importName (rootsOf items)) :
      Builds r items .importStmt [("names", .list (rootsOf items))]
  | importFrom {module? : Option String} {level : Int}
      (aliases : SomeOf .importName (rootsOf items)) (counted : 0 ≤ level)
      (relative : module? = none → 1 ≤ level) :
      Builds r items .importFrom [("module", .ofText? module?), ("names", .list (rootsOf items)),
        ("level", .int level)]
  | ifStmt {test : Node} {body rest orelse : List Node}
      (given : rootsOf items = [test] ++ (body ++ rest))
      (chain : Branches (Places r items .ifStmt) rest orelse) (rule : r.rule = .ifStmt) :
      Builds r items .ifStmt
        [("test", .node test), ("body", .list body), ("orelse", .list orelse)]
  | forStmt {place iterable : Node} {targetNodes iterableNodes body orelse : List Node}
      (given : rootsOf items = targetNodes ++ (iterableNodes ++ (body ++ orelse)))
      (bound : Targets r .write targetNodes place)
      (expressed : Expresses r iterableNodes iterable) (rule : r.rule = .forStmt) :
      Builds r items .forStmt [("target", .node place), ("iter", .node iterable),
        ("body", .list body), ("orelse", .list orelse)]
  | whileStmt {test : Node} {body orelse : List Node}
      (given : rootsOf items = [test] ++ (body ++ orelse)) (rule : r.rule = .whileStmt) :
      Builds r items .whileStmt
        [("test", .node test), ("body", .list body), ("orelse", .list orelse)]
  | tryStmt {body handlers orelse finalbody : List Node}
      (given : rootsOf items = body ++ (handlers ++ orelse ++ finalbody))
      (handling : ∀ n ∈ handlers, n.construct = .exceptHandler)
      (guarded : orelse ≠ [] → handlers ≠ []) (rule : r.rule = .tryStmt) :
      Builds r items .tryStmt [("body", .list body), ("handlers", .list handlers),
        ("orelse", .list orelse), ("finalbody", .list finalbody)]
  | exceptHandler {caught : Option Node} {name : Option String} {names body : List Node}
      (named : Names names) (given : rootsOf items = caught.toList ++ names ++ body)
      (typed : name.isSome → caught.isSome) (rule : r.rule = .exceptClause) :
      Builds r items .exceptHandler
        [("type", .ofOption caught), ("name", .ofText? name), ("body", .list body)]
  | withStmt {managers body : List Node} (given : rootsOf items = managers ++ body)
      (entered : SomeOf .withItem managers) (rule : r.rule = .withStmt) :
      Builds r items .withStmt [("items", .list managers), ("body", .list body)]
  | withItem {manager : Node} {target place : Option Node}
      (given : rootsOf items = manager :: target.toList)
      (bound : List.Forall₂ (fun n place => n.bind .write = .ok place) target.toList
        place.toList) :
      Builds r items .withItem
        [("context_expr", .node manager), ("optional_vars", .ofOption place)]
  | functionDef {names nodes body : List Node} {args : Node} {returns : Option Node}
      (name : String) (named : Names names)
      (given : rootsOf items = names ++ (nodes ++ returns.toList ++ body))
      (signed : Signs r.position nodes args) (rule : r.rule = .functionDef) :
      Builds r items .functionDef [("name", .text name), ("args", .node args),
        ("body", .list body), ("decorator_list", .list []), ("returns", .ofOption returns)]
  | lambda {nodes : List Node} {args body : Node} (given : rootsOf items = nodes ++ [body])
      (signed : Signs r.position nodes args) :
      Builds r items .lambda [("args", .node args), ("body", .node body)]
  | classDef {names nodes body : List Node} (name : String) (named : Names names)
      (given : rootsOf items = names ++ (nodes ++ body)) (rule : r.rule = .classDef) :
      Builds r items .classDef [("name", .text name),
        ("bases", .list (nodes.filter fun n => !isKeyword n)),
        ("keywords", .list (nodes.filter isKeyword)), ("body", .list body),
        ("decorator_list", .list [])]
  | arguments {s : Signature} (collects : s.Collects (rootsOf items)) :
      Builds r items .arguments s.fields
  | parameter {names : List Node} {hint : Option Node} (arg : String) (named : Names names)
      (given : rootsOf items = names ++ hint.toList) :
      Builds r items .parameter [("arg", .text arg), ("annotation", .ofOption hint)]
  | twin {statement : Node} {construct : Construct} (given : rootsOf items = [statement])
      (twin : statement.construct.asyncTwin? = some construct) :
      Builds r items construct statement.fields
  | module : Builds r items .module [("body", .list (rootsOf items)), ("type_ignores", .list [])]

/-! ## Results -/

/-- What a result says beside its nodes: a clause where it stands, and a path that it was
spelled. Tokens, fragments and placeholders are no results of a reduction. -/
inductive Answers (r : Reduction) (items : List Reduced) : Reduced → Prop
  | node (n : Node) : Answers r items (.node n)
  | nodes (ns : List Node) : Answers r items (.nodes ns)
  | operator (op : Operator) : Answers r items (.operator op)
  | pair (key value : Node) : Answers r items (.pair key value)
  | unpack (mapping : Node) : Answers r items (.unpack mapping)
  | dotted (path : String) (spelled : ∃ item ∈ items, item.Spells) :
      Answers r items (.dotted path)
  | level (dots : UInt64) : Answers r items (.level dots)
  | elif (rule : r.rule = .elifClause) (test : Node) (body : List Node) :
      Answers r items (.clause (.elif test body r.position))
  | otherwise (block : List Node) : Answers r items (.clause (.otherwise block))
  | finish (block : List Node) : Answers r items (.clause (.finish block))
  | parameter (p : Parameter) : Answers r items (.parameter p)

/-- What a reduction hands to the rule around it, by the nodes at the top of its parts. -/
inductive Reduces (r : Reduction) (items : List Reduced) : Reduced → Prop
  /-- A node at the range of the event. -/
  | built {construct : Construct} {fields : List (String × Value)}
      (builds : Builds r items construct fields) :
      Reduces r items (.node (.mk construct fields r.position))
  /-- The nodes of the parts, as they were. -/
  | passed {result : Reduced} (answer : Answers r items result)
      (kept : result.roots = rootsOf items) : Reduces r items result
  /-- A value without nodes, out of names or for a slash. -/
  | barren {result : Reduced} (answer : Answers r items result) (empty : result.roots = [])
      (given : r.rule = .slash ∨ Names (rootsOf items)) : Reduces r items result
  /-- A chain of accesses, whose steps are read for their names. -/
  | chained {base chain : Node} (rule : r.rule = .attrChain) (given : base ∈ rootsOf items)
      (linked : Linked (Places r items .attribute) base chain) : Reduces r items (.node chain)
  /-- A dotted path as an expression. -/
  | referred {chain : Node} (id : String) (given : rootsOf items = [])
      (spelled : ∃ item ∈ items, item.Spells)
      (linked : Linked (Places r items .attribute)
        (.mk .name [("id", .text id), ("ctx", .usage .read)] r.position) chain) :
      Reduces r items (.node chain)
  /-- A definition whose decorators are replaced. -/
  | decorated {decorators : List Node} {definition result : Node} (rule : r.rule = .decorated)
      (given : rootsOf items = decorators ++ [definition])
      (last : items.getLast? = some (.node definition))
      (replaced : definition.setField "decorator_list" (.list decorators) = .ok result) :
      Reduces r items (.node result)

theorem Reduces.answers {r : Reduction} {items : List Reduced} {result : Reduced}
    (h : Reduces r items result) : Answers r items result := by
  cases h with
  | passed answer | barren answer => exact answer
  | built | chained | referred | decorated => exact .node _

/-! ## Targets that follow the schema -/

/-- Every node at any depth of the parts follows the schema. -/
def Reduced.FollowSchema (items : List Reduced) : Prop :=
  ∀ n ∈ rootsOf items, n.Everywhere Node.FollowsSchema

namespace Reduced.FollowSchema

variable {r : Reduction} {items : List Reduced} {usage : Usage} {target : Node}

theorem sublist {parts : List Reduced} (h : FollowSchema items) (hparts : parts.Sublist items) :
    FollowSchema parts := by
  intro n hn
  obtain ⟨part, hpart, hroot⟩ := mem_rootsOf.mp hn
  exact h n (mem_rootsOf.mpr ⟨part, hparts.subset hpart, hroot⟩)

theorem part (h : FollowSchema items) (i : Nat) : FollowSchema items[i]?.toList := by
  refine h.sublist ?_
  cases hi : items[i]? with
  | none => exact List.nil_sublist _
  | some item => exact List.singleton_sublist.mpr (List.mem_of_getElem? hi)

/-- A node that stands alone in its place is bound, or reported. -/
theorem bind_yields (h : FollowSchema items) (htarget : rootsOf items = [target]) :
    Yields (target.bind usage) fun place => target.bind usage = .ok place := by
  have hself : target ∈ rootsOf items := by simp [htarget]
  exact (Node.bind_yields (h target hself)).and_eq.mono fun _ hplace => hplace.2

/-- A node that expresses what stands in its place is bound, or reported. -/
theorem bind_expressed_yields (h : FollowSchema items)
    (htarget : Expresses r (rootsOf items) target) :
    Yields (target.bind usage) (Targets r usage (rootsOf items)) := by
  have hself : target.Everywhere Node.FollowsSchema := by
    generalize hnodes : rootsOf items = nodes at htarget
    cases htarget with
    | single => exact h target (by simp [hnodes])
    | tuple =>
        refine Node.everywhere_mk_iff.mpr ⟨rfl, fun child hchild => h child ?_⟩
        simpa [hnodes] using hchild
  exact (Node.bind_yields hself).and_eq.mono fun _ hplace => ⟨target, htarget, hplace.2⟩

end Reduced.FollowSchema

end TreeLowering
