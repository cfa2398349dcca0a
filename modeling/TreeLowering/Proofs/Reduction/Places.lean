/-
# Handlers by the places of their parts

A handler reads its parts from a queue, one step after another. So each part that it reads
stands at a place that is known beforehand: the first, the second or the last one, or what
is behind these. Here each handler is written by these places, as the rest of the theory
has it: a part is found by its index, and what a step leaves is a final part of the list.
-/

import TreeLowering.Lowering.Transform

namespace TreeLowering.Lowering

open TreeLowering.Reduced

variable (r : Reduction) (items : List Reduced)

/-! ## Literals -/

theorem keywordConstant_eq :
    keywordConstant r items = (do
      let (word, value) := keywordLiteral r.rule
      expectWord word items[0]?
      noMore (items.drop 1)
      constant r value) := by
  simp [keywordConstant]

theorem number_eq :
    number r items = (do
      let token ← expectNumber items[0]?
      noMore (items.drop 1)
      constant r (← decodeNumber r.options.floatLiterals token)) := by
  simp [number]

theorem string_eq :
    string r items = (do
      let token ← expectToken "string token" items[0]?
      noMore (items.drop 1)
      constant r (.text (← stripDelimiters token.text))) := by
  simp [string]

/-! ## Names, accesses and other expressions -/

theorem nameRef_eq :
    nameRef r items = (do
      let id ← identifier "variable name" items[0]?
      noMore (items.drop 1)
      r.build .name [("id", .text id), ("ctx", .usage .read)]) := by
  simp [nameRef]

theorem starred_eq :
    starred r items = (do
      let value ← expectNode "starred value" items[0]?
      noMore (items.drop 1)
      r.build .starred [("value", .node value), ("ctx", .usage .read)]) := by
  simp [starred]

theorem conditional_eq :
    conditional r items = (do
      let body ← expectNode "conditional body" items[0]?
      let test ← expectNode "condition" items[1]?
      let orelse ← expectNode "alternative" items[2]?
      noMore (items.drop 3)
      r.build .ifExp [("test", .node test), ("body", .node body), ("orelse", .node orelse)]) := by
  simp [conditional]

theorem namedExpression_eq :
    namedExpression r items = (do
      let target ← (← expectNode "binding target" items[0]?).bind .write
      let value ← expectNode "bound value" items[1]?
      noMore (items.drop 2)
      r.build .namedExpr [("target", .node target), ("value", .node value)]) := by
  simp [namedExpression]

theorem awaitExpression_eq :
    awaitExpression r items = (do
      let value ← expectNode "awaited value" items[0]?
      noMore (items.drop 1)
      r.build .awaitExpr [("value", .node value)]) := by
  simp [awaitExpression]

theorem attributeAccess_eq :
    attributeAccess r items = (do
      let value ← expectNode "attribute owner" items[0]?
      let attr ← identifier "attribute name" items[1]?
      noMore (items.drop 2)
      (attributeOf r.position value attr).map .node) := by
  simp [attributeAccess]

theorem attributeChain_eq :
    attributeChain r items = (do
      let base ← expectNode "attribute base" items[0]?
      if (items.drop 1).isEmpty then .error (.shape "attribute name" "nothing")
      else (attributeLinks r base.position base (items.drop 1)).map .node) := by
  simp [attributeChain]

theorem subscript_eq :
    subscript r items = (do
      let value ← expectNode "subscripted value" items[0]?
      let index ← r.expression "subscript index" items[1]?
      noMore (items.drop 2)
      r.build .subscript [("value", .node value), ("slice", .node index),
        ("ctx", .usage .read)]) := by
  simp [subscript]

theorem slice_eq :
    slice r items = (do
      let lower ← optionalNode "slice lower bound" items[0]?
      let upper ← optionalNode "slice upper bound" items[1]?
      let step ← optionalNode "slice step" items[2]?
      noMore (items.drop 3)
      r.build .slice [("lower", .ofOption lower), ("upper", .ofOption upper),
        ("step", .ofOption step)]) := by
  simp [slice]

/-! ## Calls -/

theorem call_eq :
    call r items = (do
      let func ← expectNode "callee" items[0]?
      callOf r func (items.drop 1)) := by
  simp [call]

theorem keywordArgument_eq :
    keywordArgument r items = (do
      let arg ← identifier "keyword name" items[0]?
      let value ← expectNode "keyword value" items[1]?
      noMore (items.drop 2)
      r.build .keyword [("arg", .text arg), ("value", .node value)]) := by
  simp [keywordArgument]

theorem mappingArgument_eq :
    mappingArgument r items = (do
      let value ← expectNode "keyword mapping" items[0]?
      noMore (items.drop 1)
      r.build .keyword [("arg", .absent), ("value", .node value)]) := by
  simp [mappingArgument]

/-! ## Operations -/

theorem comparison_eq :
    comparison r items = (do
      let left ← expectNode "left operand" items[0]?
      let (ops, comparators) ← splitChain (items.drop 1)
      if ops.isEmpty || ops.length != comparators.length then
        .error (.shape s!"one comparator per operator ({ops.length} operators)"
          s!"{comparators.length} comparators")
      else
        r.build .compare [("left", .node left), ("ops", .scalar (.operators ops)),
          ("comparators", .list comparators)]) := by
  simp [comparison]

theorem operatorAndRight_eq (rule : Rule) :
    operatorAndRight rule items =
      match items.head?, impliedOperator? rule with
      | some (.operator op), _ => do
        let right ← expectNode "right operand" items[1]?
        noMore (items.drop 2)
        .ok (op, right)
      | some (.node right), some op => do
        noMore (items.drop 1)
        .ok (op, right)
      | item, _ => .error (unexpected "binary operator" item) := by
  rw [operatorAndRight, Reading.answer_next_bind, ← List.head?_eq_getElem?]
  split <;> simp [*]

theorem binary_eq :
    binary r items = (do
      let left ← expectNode "left operand" items[0]?
      let (op, right) ← operatorAndRight r.rule (items.drop 1)
      if op.operatorClass = .binary then
        r.build .binOp [("left", .node left), ("op", .operator op), ("right", .node right)]
      else .error (.unrecognized "binary operator" op.tag)) := by
  simp [binary]

theorem operatorAndOperand_eq (rule : Rule) :
    operatorAndOperand rule items =
      match items.head? with
      | some (.operator op) => do
        let operand ← expectNode "operand" items[1]?
        noMore (items.drop 2)
        .ok (op, operand)
      | some (.node operand) =>
        if rule = .notTest then do
          noMore (items.drop 1)
          .ok (.not, operand)
        else .error (unexpected "unary operator" (some (.node operand)))
      | item => .error (unexpected "unary operator" item) := by
  rw [operatorAndOperand, Reading.answer_next_bind, ← List.head?_eq_getElem?]
  split <;> simp [*]

theorem unary_eq :
    unary r items = (do
      let (op, operand) ← operatorAndOperand r.rule items
      if op.operatorClass = .unary then
        r.build .unaryOp [("op", .operator op), ("operand", .node operand)]
      else .error (.unrecognized "unary operator" op.tag)) := by
  simp [unary]

/-! ## Displays -/

theorem keyValue_eq :
    keyValue r items = (do
      let key ← expectNode "dict key" items[0]?
      let value ← expectNode "dict value" items[1]?
      noMore (items.drop 2)
      .ok (.pair key value)) := by
  simp [keyValue]

theorem dictUnpack_eq :
    dictUnpack r items = (do
      let mapping ← expectNode "unpacked mapping" items[0]?
      noMore (items.drop 1)
      .ok (.unpack mapping)) := by
  simp [dictUnpack]

/-! ## Comprehensions -/

theorem comprehensionClause_eq :
    comprehensionClause r items = (do
      let target ← (← expectNode "comprehension target" items[0]?).bind .write
      let iterable ← expectNode "comprehension iterable" items[1]?
      let condition ← optionalNode "comprehension condition" items[2]?
      noMore (items.drop 3)
      if condition.any isComprehension then
        .error (.unrecognized "comprehension condition" "nested comprehension clause")
      else
        r.build .comprehension [("target", .node target), ("iter", .node iterable),
          ("ifs", .list condition.toList),
          ("is_async", .int (if r.rule = .asyncCompFor then 1 else 0))]) := by
  simp [comprehensionClause]

theorem comprehension_eq :
    comprehension r items =
      match comprehensionConstruct? r.rule with
      | some construct => do
        let element ← expectNode "comprehension element" items[0]?
        let generators ← clauses (items.drop 1)
        r.build construct [("elt", .node element), ("generators", .list generators)]
      | none => .error (.unrecognized "comprehension kind" r.rule.name) := by
  rw [comprehension]
  split <;> simp [*]

theorem dictComprehension_eq :
    dictComprehension r items =
      match items.head? with
      | some (.pair key value) => dictComprehensionOf r key value (items.drop 1)
      | some (.node key) => do
        let value ← expectNode "comprehension value" items[1]?
        dictComprehensionOf r key value (items.drop 2)
      | item => .error (unexpected "comprehension entry" item) := by
  rw [dictComprehension, Reading.answer_next_bind, ← List.head?_eq_getElem?]
  split <;> simp [*]

/-! ## Simple statements -/

theorem expressionStatement_eq :
    expressionStatement r items = (do
      let value ← r.expression "expression" items[0]?
      noMore (items.drop 1)
      r.build .exprStmt [("value", .node value)]) := by
  simp [expressionStatement]

theorem assignment_eq :
    assignment r items = (do
      let value ← r.expression "assigned value" items.getLast?
      if items.dropLast.isEmpty then .error (.shape "assignment target" "nothing")
      else do
        let targets ← items.dropLast.mapM (assignmentTarget r)
        r.build .assign [("targets", .list targets), ("value", .node value)]) := by
  simp [assignment]

theorem augmentedAssignment_eq :
    augmentedAssignment r items = (do
      let target ← (← expectNode "augmented target" items[0]?).bind .write
      let op ← expectBinary "augmented operator" items[1]?
      let value ← r.expression "augmented value" items[2]?
      noMore (items.drop 3)
      r.build .augAssign [("target", .node target), ("op", .operator op),
        ("value", .node value)]) := by
  simp [augmentedAssignment]

theorem annotatedAssignment_eq :
    annotatedAssignment r items = (do
      let target ← (← expectNode "annotated target" items[0]?).bind .write
      let annotation ← expectNode "annotation" items[1]?
      let value ← optionalNode "annotated value" items[2]?
      noMore (items.drop 3)
      r.build .annAssign [("target", .node target), ("annotation", .node annotation),
        ("value", .ofOption value),
        ("simple", .int (if target.construct = .name then 1 else 0))]) := by
  simp [annotatedAssignment]

theorem returnOrYield_eq :
    returnOrYield r items = (do
      let value ← returnedValue r items[0]?
      noMore (items.drop 1)
      r.build (if r.rule = .returnStmt then .returnStmt else .yieldExpr)
        [("value", .ofOption value)]) := by
  simp [returnOrYield]

theorem yieldFrom_eq :
    yieldFrom r items = (do
      let value ← expectNode "delegated iterable" items[0]?
      noMore (items.drop 1)
      r.build .yieldFrom [("value", .node value)]) := by
  simp [yieldFrom]

theorem raise_eq :
    raise r items = (do
      let exc ← optionalNode "raised exception" items[0]?
      let cause ← optionalNode "exception cause" items[1]?
      noMore (items.drop 2)
      if exc.isNone && cause.isSome then
        .error (.shape "raised exception" "cause without exception")
      else r.build .raiseStmt [("exc", .ofOption exc), ("cause", .ofOption cause)]) := by
  simp [raise]

theorem assertion_eq :
    assertion r items = (do
      let test ← expectNode "asserted condition" items[0]?
      let msg ← optionalNode "assertion message" items[1]?
      noMore (items.drop 2)
      r.build .assertStmt [("test", .node test), ("msg", .ofOption msg)]) := by
  simp [assertion]

/-! ## Imports -/

theorem importAlias_eq :
    importAlias r items = (do
      let name ← importedName items[0]?
      let asname ← optionalIdentifier "import alias" items[1]?
      noMore (items.drop 2)
      r.build .importName [("name", .text name), ("asname", .ofText? asname)]) := by
  simp [importAlias]

/-! ## Compound statements -/

theorem clause_eq :
    clause r items =
      match r.rule with
      | .elifClause => do
        let test ← expectNode "elif condition" items[0]?
        let body ← block "elif block" items[1]?
        noMore (items.drop 2)
        .ok (.clause (.elif test body r.position))
      | .elseClause => do
        let body ← block "else block" items[0]?
        noMore (items.drop 1)
        .ok (.clause (.otherwise body))
      | .finallyClause => do
        let body ← block "finally block" items[0]?
        noMore (items.drop 1)
        .ok (.clause (.finish body))
      | other => .error (.unrecognized "clause" other.name) := by
  rw [clause]
  split <;> simp [*]

theorem ifStatement_eq :
    ifStatement r items = (do
      let test ← expectNode "if condition" items[0]?
      let body ← block "if block" items[1]?
      let orelse ← branches (items.drop 2)
      (conditionalAt r.position test body orelse).map .node) := by
  simp [ifStatement]

theorem forLoop_eq :
    forLoop r items = (do
      let target ← (← r.expression "loop target" items[0]?).bind .write
      let iterable ← r.expression "loop iterable" items[1]?
      let body ← block "loop block" items[2]?
      let orelse ← elseBlock items[3]?
      noMore (items.drop 4)
      r.build .forStmt [("target", .node target), ("iter", .node iterable), ("body", .list body),
        ("orelse", .list orelse)]) := by
  simp [forLoop]

theorem whileLoop_eq :
    whileLoop r items = (do
      let test ← expectNode "loop condition" items[0]?
      let body ← block "loop block" items[1]?
      let orelse ← elseBlock items[2]?
      noMore (items.drop 3)
      r.build .whileStmt [("test", .node test), ("body", .list body),
        ("orelse", .list orelse)]) := by
  simp [whileLoop]

theorem tryStatement_eq :
    tryStatement r items = (do
      let body ← block "try block" items[0]?
      let found ← (items.drop 1).foldlM TryClauses.add .empty
      found.check
      r.build .tryStmt [("body", .list body), ("handlers", .list found.handlers),
        ("orelse", .list (found.otherwise?.getD [])),
        ("finalbody", .list (found.finally?.getD []))]) := by
  simp [tryStatement]

theorem exceptClause_eq :
    exceptClause r items = (do
      let body ← block "except block" items.getLast?
      let caught ← optionalNode "exception type" items.dropLast[0]?
      let name ← optionalIdentifier "exception name" items.dropLast[1]?
      noMore (items.dropLast.drop 2)
      if caught.isNone && name.isSome then .error (.shape "exception type" "name without type")
      else
        r.build .exceptHandler [("type", .ofOption caught), ("name", .ofText? name),
          ("body", .list body)]) := by
  simp [exceptClause]

theorem withStatement_eq :
    withStatement r items = (do
      let body ← block "with block" items.getLast?
      let managers ← allOf .withItem "with item" (← gather items.dropLast)
      r.build .withStmt [("items", .list managers), ("body", .list body)]) := by
  simp [withStatement]

theorem withItem_eq :
    withItem r items = (do
      let manager ← expectNode "context manager" items[0]?
      let target ← bindOption .write (← optionalNode "with target" items[1]?)
      noMore (items.drop 2)
      r.build .withItem [("context_expr", .node manager),
        ("optional_vars", .ofOption target)]) := by
  simp [withItem]

/-! ## Parameters -/

theorem plainParameter_eq :
    plainParameter r items = (do
      let arg ← identifier "parameter name" items[0]?
      let annotation ← optionalNode "parameter annotation" items[1]?
      noMore (items.drop 2)
      r.build .parameter [("arg", .text arg), ("annotation", .ofOption annotation)]) := by
  simp [plainParameter]

theorem defaultParameter_eq :
    defaultParameter r items = (do
      let parameter ← expectNode "parameter" items[0]?
      let value ← expectNode "parameter default" items[1]?
      noMore (items.drop 2)
      .ok (.parameter (.plain parameter (some value)))) := by
  simp [defaultParameter]

theorem starParameter_eq :
    starParameter r items = (do
      let parameter ← optionalNode "variadic parameter" items[0]?
      noMore (items.drop 1)
      .ok (.parameter (.star parameter))) := by
  simp [starParameter]

theorem mappingParameter_eq :
    mappingParameter r items = (do
      let parameter ← expectNode "keyword parameter" items[0]?
      noMore (items.drop 1)
      .ok (.parameter (.mapping parameter))) := by
  simp [mappingParameter]

/-! ## Definitions -/

theorem parametersAndReturns_eq (position : Position) :
    parametersAndReturns position items = (do
      let args ← signatureNode position items[0]?
      let returns ← optionalNode "return annotation" items[1]?
      noMore (items.drop 2)
      .ok (args, returns)) := by
  simp [parametersAndReturns]

theorem functionHeader_eq (position : Position) :
    functionHeader position items =
      match items.head? with
      | some (.node n) =>
        if isParameterNode n then parametersAndReturns position items
        else do
          let args ← signatureNode position none
          noMore (items.drop 1)
          .ok (args, some n)
      | _ => parametersAndReturns position items := by
  cases items with
  | nil => rfl
  | cons item rest => cases item <;> rfl

theorem functionDefinition_eq :
    functionDefinition r items = (do
      let name ← identifier "function name" items[0]?
      let body ← block "function body" (items.drop 1).getLast?
      let (args, returns) ← functionHeader r.position (items.drop 1).dropLast
      r.build .functionDef [("name", .text name), ("args", .node args), ("body", .list body),
        ("decorator_list", .list []), ("returns", .ofOption returns)]) := by
  simp [functionDefinition]

theorem lambda_eq :
    lambda r items = (do
      let body ← expectNode "lambda body" items.getLast?
      let args ← signatureNode r.position items.dropLast[0]?
      noMore (items.dropLast.drop 1)
      r.build .lambda [("args", .node args), ("body", .node body)]) := by
  simp [lambda]

theorem classDefinition_eq :
    classDefinition r items = (do
      let name ← identifier "class name" items[0]?
      let body ← block "class body" (items.drop 1).getLast?
      let (bases, keywords) ← classifyArguments (items.drop 1).dropLast
      r.build .classDef [("name", .text name), ("bases", .list bases), ("keywords", .list keywords),
        ("body", .list body), ("decorator_list", .list [])]) := by
  simp [classDefinition]

theorem decorator_eq :
    decorator r items = (do
      let func ← decoratorReference r.position items[0]?
      noMore (items.drop 2)
      match items.drop 1 with
      | [] => .ok (.node func)
      | .absent :: _ => .ok (.node func)
      | arguments :: _ => callOf r func [arguments]) := by
  rcases items with _ | ⟨first, _ | ⟨second, rest⟩⟩
  · simp [decorator]
  · simp [decorator]
  · cases second <;> simp [decorator]

theorem decorated_eq :
    decorated r items = (do
      let definition ← expectNode "decorated definition" items.getLast?
      if isDecorable definition then do
        let decorators ← gather items.dropLast
        if decorators.isEmpty then .error (.shape "decorator" "nothing")
        else (definition.setField "decorator_list" (.list decorators)).map .node
      else .error (.unrecognized "decorated definition" definition.construct.tag)) := by
  simp [decorated]

theorem asyncStatement_eq :
    asyncStatement r items = (do
      let statement ← expectNode "async statement" items.getLast?
      onlyTokens "async statement" items.dropLast
      match statement.construct.asyncTwin? with
      | some twin => r.build twin statement.fields
      | none => .error (.unrecognized "async statement" statement.construct.tag)) := by
  simp only [asyncStatement, Reading.answer_nodeBack_bind, Reading.answer_drain_bind,
    Reading.answer_liftM_bind]
  refine bind_congr fun statement => bind_congr fun _ => ?_
  cases statement.construct.asyncTwin? <;> rfl

end TreeLowering.Lowering
