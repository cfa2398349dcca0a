/-
# Well-formed nodes

What the slots of each construct hold in a tree that a backend accepts: the kind of
content, the classes of operators, the constructs that lists are restricted to, and the
lengths that must agree. The catalogue only says how slots are named; the rest is stated
here. Binding a target keeps all of it, since no condition looks at a usage.
-/

import TreeLowering.Proofs.Tree.Schema

namespace TreeLowering

/-- Whether a scalar is the value of a literal. -/
def Scalar.isLiteral : Scalar → Bool
  | .none | .bool _ | .int _ | .float _ | .text _ => true
  | _ => false

/-- All nodes are of one construct, and there is one. -/
def SomeOf (construct : Construct) (nodes : List Node) : Prop :=
  nodes ≠ [] ∧ ∀ n ∈ nodes, n.construct = construct

/-- Plain arguments are no keywords, and keywords are nothing else. -/
def Classified (plain keywords : List Node) : Prop :=
  (∀ n ∈ plain, n.construct ≠ .keyword) ∧ ∀ n ∈ keywords, n.construct = .keyword

/-- The fields of an attribute access. -/
abbrev accessFields (value : Node) (attr : String) (usage : Usage) : List (String × Value) :=
  [("value", .node value), ("attr", .text attr), ("ctx", .usage usage)]

/-- The fields of well-formed nodes of each construct. -/
inductive Formed : Construct → List (String × Value) → Prop
  | constant {value : Scalar} (literal : value.isLiteral) :
      Formed .constant [("value", .scalar value)]
  | display {construct : Construct} (kind : construct = .list ∨ construct = .tuple)
      (elements : List Node) (usage : Usage) :
      Formed construct [("elts", .list elements), ("ctx", .usage usage)]
  | set (elements : List Node) : Formed .set [("elts", .list elements)]
  | dict {keys : List (Option Node)} {values : List Node} (same : keys.length = values.length) :
      Formed .dict [("keys", .sparse keys), ("values", .list values)]
  | name (id : String) (usage : Usage) : Formed .name [("id", .text id), ("ctx", .usage usage)]
  | starred (value : Node) (usage : Usage) :
      Formed .starred [("value", .node value), ("ctx", .usage usage)]
  | unaryOp {op : Operator} (operand : Node) (unary : op.operatorClass = .unary) :
      Formed .unaryOp [("op", .operator op), ("operand", .node operand)]
  | binOp {op : Operator} (left right : Node) (binary : op.operatorClass = .binary) :
      Formed .binOp [("left", .node left), ("op", .operator op), ("right", .node right)]
  | boolOp {op : Operator} {values : List Node} (boolean : op.operatorClass = .boolean)
      (several : 2 ≤ values.length) :
      Formed .boolOp [("op", .operator op), ("values", .list values)]
  | compare {ops : List Operator} {comparators : List Node} (left : Node) (some : ops ≠ [])
      (comparison : ∀ op ∈ ops, op.operatorClass = .comparison)
      (same : ops.length = comparators.length) :
      Formed .compare [("left", .node left), ("ops", .scalar (.operators ops)),
        ("comparators", .list comparators)]
  | call {args keywords : List Node} (func : Node) (classified : Classified args keywords) :
      Formed .call [("func", .node func), ("args", .list args), ("keywords", .list keywords)]
  | keyword (arg : Option String) (value : Node) :
      Formed .keyword [("arg", .ofText? arg), ("value", .node value)]
  | ifExp (test body orelse : Node) :
      Formed .ifExp [("test", .node test), ("body", .node body), ("orelse", .node orelse)]
  | access (value : Node) (attr : String) (usage : Usage) :
      Formed .attribute (accessFields value attr usage)
  | namedExpr (target value : Node) :
      Formed .namedExpr [("target", .node target), ("value", .node value)]
  | subscript (value index : Node) (usage : Usage) :
      Formed .subscript [("value", .node value), ("slice", .node index), ("ctx", .usage usage)]
  | slice (lower upper step : Option Node) :
      Formed .slice [("lower", .ofOption lower), ("upper", .ofOption upper),
        ("step", .ofOption step)]
  | elementComprehension {construct : Construct} {generators : List Node}
      (kind : construct = .listComp ∨ construct = .setComp ∨ construct = .generatorExp)
      (element : Node) (clauses : SomeOf .comprehension generators) :
      Formed construct [("elt", .node element), ("generators", .list generators)]
  | dictComp {generators : List Node} (key value : Node)
      (clauses : SomeOf .comprehension generators) :
      Formed .dictComp [("key", .node key), ("value", .node value),
        ("generators", .list generators)]
  | comprehension {conditions : List Node} {isAsync : Int} (target iterable : Node)
      (one : conditions.length ≤ 1) (plain : ∀ n ∈ conditions, n.construct ≠ .comprehension)
      (flag : isAsync = 0 ∨ isAsync = 1) :
      Formed .comprehension [("target", .node target), ("iter", .node iterable),
        ("ifs", .list conditions), ("is_async", .int isAsync)]
  | assign {targets : List Node} (value : Node) (some : targets ≠ []) :
      Formed .assign [("targets", .list targets), ("value", .node value)]
  | augAssign {op : Operator} (target value : Node) (binary : op.operatorClass = .binary) :
      Formed .augAssign [("target", .node target), ("op", .operator op), ("value", .node value)]
  | annAssign {target : Node} {simple : Int} (hint : Node) (value : Option Node)
      (flag : simple = if target.construct = .name then 1 else 0) :
      Formed .annAssign [("target", .node target), ("annotation", .node hint),
        ("value", .ofOption value), ("simple", .int simple)]
  | raiseStmt {exc cause : Option Node} (caused : cause.isSome → exc.isSome) :
      Formed .raiseStmt [("exc", .ofOption exc), ("cause", .ofOption cause)]
  | assertStmt (test : Node) (msg : Option Node) :
      Formed .assertStmt [("test", .node test), ("msg", .ofOption msg)]
  | deleteStmt {targets : List Node} (some : targets ≠ []) :
      Formed .deleteStmt [("targets", .list targets)]
  | keywordStmt {construct : Construct}
      (kind : construct = .passStmt ∨ construct = .breakStmt ∨ construct = .continueStmt) :
      Formed construct []
  | importStmt {names : List Node} (aliases : SomeOf .importName names) :
      Formed .importStmt [("names", .list names)]
  | importFrom {module? : Option String} {names : List Node} {level : Int}
      (aliases : SomeOf .importName names) (counted : 0 ≤ level)
      (relative : module? = none → 1 ≤ level) :
      Formed .importFrom [("module", .ofText? module?), ("names", .list names),
        ("level", .int level)]
  | importName (name : String) (asname : Option String) :
      Formed .importName [("name", .text name), ("asname", .ofText? asname)]
  | branching {construct : Construct} (kind : construct = .ifStmt ∨ construct = .whileStmt)
      (test : Node) (body orelse : List Node) :
      Formed construct [("test", .node test), ("body", .list body), ("orelse", .list orelse)]
  | forLoop {construct : Construct} (kind : construct = .forStmt ∨ construct = .asyncFor)
      (target iterable : Node) (body orelse : List Node) :
      Formed construct [("target", .node target), ("iter", .node iterable), ("body", .list body),
        ("orelse", .list orelse)]
  | tryStmt {handlers orelse : List Node} (body finalbody : List Node)
      (handling : ∀ n ∈ handlers, n.construct = .exceptHandler)
      (guarded : orelse ≠ [] → handlers ≠ []) :
      Formed .tryStmt [("body", .list body), ("handlers", .list handlers),
        ("orelse", .list orelse), ("finalbody", .list finalbody)]
  | exceptHandler {caught : Option Node} {name : Option String} (body : List Node)
      (typed : name.isSome → caught.isSome) :
      Formed .exceptHandler [("type", .ofOption caught), ("name", .ofText? name),
        ("body", .list body)]
  | withBlock {construct : Construct} {managers : List Node}
      (kind : construct = .withStmt ∨ construct = .asyncWith) (body : List Node)
      (items : SomeOf .withItem managers) :
      Formed construct [("items", .list managers), ("body", .list body)]
  | withItem (manager : Node) (target : Option Node) :
      Formed .withItem [("context_expr", .node manager), ("optional_vars", .ofOption target)]
  | function {construct : Construct} {args : Node}
      (kind : construct = .functionDef ∨ construct = .asyncFunctionDef) (name : String)
      (body decorators : List Node) (returns : Option Node)
      (signature : args.construct = .arguments) :
      Formed construct [("name", .text name), ("args", .node args), ("body", .list body),
        ("decorator_list", .list decorators), ("returns", .ofOption returns)]
  | lambda {args : Node} (body : Node) (signature : args.construct = .arguments) :
      Formed .lambda [("args", .node args), ("body", .node body)]
  | arguments {positionalOnly positional keywordOnly : List Node} {star mapping : Option Node}
      {keywordDefaults : List (Option Node)} {defaults : List Node}
      (parameters : ∀ n ∈ positionalOnly ++ positional ++ star.toList ++ keywordOnly ++
        mapping.toList, n.construct = .parameter)
      (paired : keywordDefaults.length = keywordOnly.length)
      (fitting : defaults.length ≤ positionalOnly.length + positional.length) :
      Formed .arguments [("posonlyargs", .list positionalOnly), ("args", .list positional),
        ("vararg", .ofOption star), ("kwonlyargs", .list keywordOnly),
        ("kw_defaults", .sparse keywordDefaults), ("kwarg", .ofOption mapping),
        ("defaults", .list defaults)]
  | parameter (arg : String) (hint : Option Node) :
      Formed .parameter [("arg", .text arg), ("annotation", .ofOption hint)]
  | optionalValue {construct : Construct}
      (kind : construct = .returnStmt ∨ construct = .yieldExpr) (value : Option Node) :
      Formed construct [("value", .ofOption value)]
  | requiredValue {construct : Construct}
      (kind : construct = .exprStmt ∨ construct = .yieldFrom ∨ construct = .awaitExpr)
      (value : Node) : Formed construct [("value", .node value)]
  | scope {construct : Construct} {names : List String}
      (kind : construct = .globalStmt ∨ construct = .nonlocalStmt) (some : names ≠ []) :
      Formed construct [("names", .scalar (.identifiers names))]
  | classDef {bases keywords : List Node} (name : String) (body decorators : List Node)
      (classified : Classified bases keywords) :
      Formed .classDef [("name", .text name), ("bases", .list bases),
        ("keywords", .list keywords), ("body", .list body), ("decorator_list", .list decorators)]
  | module (body : List Node) : Formed .module [("body", .list body), ("type_ignores", .list [])]

/-- The fields of a node are those of a well-formed node of its construct. -/
def Node.WellFormed (n : Node) : Prop :=
  Formed n.construct n.fields

@[simp]
theorem Node.wellFormed_mk {construct : Construct} {fields : List (String × Value)}
    {position : Position} :
    (Node.mk construct fields position).WellFormed ↔ Formed construct fields := Iff.rfl

namespace Formed

variable {construct : Construct} {fields : List (String × Value)}

/-- Well-formed fields are the slots of the catalogue. -/
theorem map_fst_eq (h : Formed construct fields) :
    fields.map (·.1) = construct.slots := by
  cases h with
  | display kind | branching kind | forLoop kind | withBlock kind | function kind
  | optionalValue kind | scope kind => rcases kind with rfl | rfl <;> rfl
  | elementComprehension kind | keywordStmt kind | requiredValue kind =>
      rcases kind with rfl | rfl | rfl <;> rfl
  | _ => rfl

end Formed

end TreeLowering
