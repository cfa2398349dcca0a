/-
# Lowering a tree

Reduction of a parse tree from its leaves: the parts of a branch are reduced in source
order, and then the handler of its rule answers. The first failure ends the reduction
and is attributed to the rule in which it arose. The whole tree must become a module.
-/

import TreeLowering.Lowering.Block
import TreeLowering.Lowering.Comprehension
import TreeLowering.Lowering.Definition
import TreeLowering.Lowering.Display
import TreeLowering.Lowering.Expression
import TreeLowering.Lowering.Import
import TreeLowering.Lowering.Literal
import TreeLowering.Lowering.Operation
import TreeLowering.Lowering.Statement

namespace TreeLowering

open TreeLowering.Lowering

/-- The handler of a rule. -/
def handlerOf : Rule → Handler
  | .constTrue | .constFalse | .constNone => keywordConstant
  | .constNumber | .number => number
  | .string => string
  | .stringConcat => stringConcat
  | .nameRef => nameRef
  | .starExpr | .starArg => starred
  | .addOp | .mulOp | .shiftOp | .unaryOp | .compOp | .augAssignOp | .orOp | .andOp
  | .notOp => operator
  | .comparison => comparison
  | .arithExpr | .termExpr | .shiftExpr | .andExpr | .xorExpr | .orExpr
  | .powerExpr => binary
  | .orTest | .andTest => boolean
  | .notTest | .factorExpr => unary
  | .conditionalExpr => conditional
  | .assignExpr => namedExpression
  | .awaitExpr => awaitExpression
  | .call => call
  | .argumentList => nodeList
  | .keywordArg => keywordArgument
  | .mappingArg => mappingArgument
  | .attribute => attributeAccess
  | .attrChain => attributeChain
  | .subscript => subscript
  | .slice => slice
  | .listDisplay | .tupleDisplay | .setDisplay => sequence
  | .dictDisplay => dict
  | .keyValue => keyValue
  | .dictUnpack => dictUnpack
  | .compFor | .asyncCompFor => comprehensionClause
  | .listComprehension | .setComprehension | .generatorExpression => comprehension
  | .dictComprehension => dictComprehension
  | .exprStmt => expressionStatement
  | .assignStmt => assignment
  | .augAssignStmt => augmentedAssignment
  | .annAssignStmt => annotatedAssignment
  | .returnStmt | .yieldExpr => returnOrYield
  | .yieldFrom => yieldFrom
  | .raiseStmt => raise
  | .assertStmt => assertion
  | .delStmt => deletion
  | .passStmt | .breakStmt | .continueStmt => keywordStatement
  | .globalStmt | .nonlocalStmt => scopeDeclaration
  | .dottedName => dottedName
  | .dottedAsName | .importAsName => importAlias
  | .importStar => importStar
  | .importName => importModules
  | .relativeLevel => relativeLevel
  | .importFrom => importFrom
  | .suite | .simpleStmt => nodeList
  | .ifStmt => ifStatement
  | .elifClause | .elseClause | .finallyClause => clause
  | .forStmt => forLoop
  | .whileStmt => whileLoop
  | .tryStmt => tryStatement
  | .exceptClause => exceptClause
  | .withStmt => withStatement
  | .withItem => withItem
  | .functionDef => functionDefinition
  | .parameterList => parameterList
  | .plainParam => plainParameter
  | .defaultParam => defaultParameter
  | .starParam => starParameter
  | .mappingParam => mappingParameter
  | .slash => slash
  | .lambda => lambda
  | .classDef => classDefinition
  | .decorator => decorator
  | .decorators => nodeList
  | .decorated => decorated
  | .asyncStmt => asyncStatement
  | .fileInput | .moduleRoot => moduleRoot

/-- The reduction of a rule with given parts. -/
def apply (options : Options) (rule : Rule) (position : Position) (items : List Reduced) :
    Except Error Reduced :=
  (handlerOf rule ⟨rule, position, options⟩ items).mapError (·.within rule.name position)

mutual

/-- The reduction of a tree. -/
def reduce (options : Options) : ParseTree → Except Error Reduced
  | .absent => .ok .absent
  | .token t => .ok (.token t)
  | .rule name children position =>
    match reduceAll options children with
    | .error e => .error e
    | .ok items => match Rule.ofName? name with
      | some rule => apply options rule position items
      | none => .ok (.fragment name items position)

/-- The reductions of a list of trees, in order. -/
def reduceAll (options : Options) : List ParseTree → Except Error (List Reduced)
  | [] => .ok []
  | tree :: rest =>
    match reduce options tree with
    | .error e => .error e
    | .ok first => match reduceAll options rest with
      | .error e => .error e
      | .ok others => .ok (first :: others)

end

/-- The module that a reduced root is. -/
def expectModule : Reduced → Except Error Node
  | .node n =>
    if n.construct = .module then .ok n else .error (.notAModule (Reduced.node n).describe)
  | other => .error (.notAModule other.describe)

/-- The module that a tree lowers to. -/
def transform (options : Options) (tree : ParseTree) : Except Error Node :=
  (reduce options tree).bind expectModule

end TreeLowering
