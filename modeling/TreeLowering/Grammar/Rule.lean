/-
# Grammar rules

The rules whose reductions build something. The set is closed: a rule with another name
is no error, its reduction stays a group of parts for an enclosing rule to look through.
-/

namespace TreeLowering

/-- A rule that has a reduction of its own. -/
inductive Rule where
  | constTrue
  | constFalse
  | constNone
  | constNumber
  | number
  | string
  | stringConcat
  | nameRef
  | starExpr
  | addOp
  | mulOp
  | shiftOp
  | unaryOp
  | compOp
  | augAssignOp
  | orOp
  | andOp
  | notOp
  | comparison
  | arithExpr
  | termExpr
  | shiftExpr
  | andExpr
  | xorExpr
  | orExpr
  | powerExpr
  | orTest
  | andTest
  | notTest
  | factorExpr
  | conditionalExpr
  | assignExpr
  | awaitExpr
  | call
  | argumentList
  | keywordArg
  | mappingArg
  | starArg
  | attribute
  | attrChain
  | subscript
  | slice
  | listDisplay
  | tupleDisplay
  | setDisplay
  | dictDisplay
  | keyValue
  | dictUnpack
  | compFor
  | asyncCompFor
  | listComprehension
  | setComprehension
  | generatorExpression
  | dictComprehension
  | exprStmt
  | assignStmt
  | augAssignStmt
  | annAssignStmt
  | returnStmt
  | yieldExpr
  | yieldFrom
  | raiseStmt
  | assertStmt
  | delStmt
  | passStmt
  | breakStmt
  | continueStmt
  | globalStmt
  | nonlocalStmt
  | dottedName
  | dottedAsName
  | importAsName
  | importStar
  | importName
  | relativeLevel
  | importFrom
  | suite
  | simpleStmt
  | ifStmt
  | elifClause
  | elseClause
  | finallyClause
  | forStmt
  | whileStmt
  | tryStmt
  | exceptClause
  | withStmt
  | withItem
  | functionDef
  | parameterList
  | plainParam
  | defaultParam
  | starParam
  | mappingParam
  | slash
  | lambda
  | classDef
  | decorator
  | decorators
  | decorated
  | asyncStmt
  | fileInput
  | moduleRoot
  deriving DecidableEq

namespace Rule

/-- Every rule. -/
def all : List Rule := [
    .constTrue, .constFalse, .constNone, .constNumber, .number, .string, .stringConcat, .nameRef,
    .starExpr, .addOp, .mulOp, .shiftOp, .unaryOp, .compOp, .augAssignOp, .orOp, .andOp, .notOp,
    .comparison, .arithExpr, .termExpr, .shiftExpr, .andExpr, .xorExpr, .orExpr, .powerExpr,
    .orTest, .andTest, .notTest, .factorExpr, .conditionalExpr, .assignExpr, .awaitExpr, .call,
    .argumentList, .keywordArg, .mappingArg, .starArg, .attribute, .attrChain, .subscript,
    .slice, .listDisplay, .tupleDisplay, .setDisplay, .dictDisplay, .keyValue, .dictUnpack,
    .compFor, .asyncCompFor, .listComprehension, .setComprehension, .generatorExpression,
    .dictComprehension, .exprStmt, .assignStmt, .augAssignStmt, .annAssignStmt, .returnStmt,
    .yieldExpr, .yieldFrom, .raiseStmt, .assertStmt, .delStmt, .passStmt, .breakStmt,
    .continueStmt, .globalStmt, .nonlocalStmt, .dottedName, .dottedAsName, .importAsName,
    .importStar, .importName, .relativeLevel, .importFrom, .suite, .simpleStmt, .ifStmt,
    .elifClause, .elseClause, .finallyClause, .forStmt, .whileStmt, .tryStmt, .exceptClause,
    .withStmt, .withItem, .functionDef, .parameterList, .plainParam, .defaultParam, .starParam,
    .mappingParam, .slash, .lambda, .classDef, .decorator, .decorators, .decorated, .asyncStmt,
    .fileInput, .moduleRoot]

/-- The name of a rule in the grammar. -/
def name : Rule → String
  | .constTrue => "const_true"
  | .constFalse => "const_false"
  | .constNone => "const_none"
  | .constNumber => "const_number"
  | .number => "number"
  | .string => "string"
  | .stringConcat => "string_concat"
  | .nameRef => "var"
  | .starExpr => "star_expr"
  | .addOp => "add_op"
  | .mulOp => "mul_op"
  | .shiftOp => "shift_op"
  | .unaryOp => "unary_op"
  | .compOp => "comp_op"
  | .augAssignOp => "augassign_op"
  | .orOp => "or_op"
  | .andOp => "and_op"
  | .notOp => "not_op"
  | .comparison => "comparison"
  | .arithExpr => "arith_expr"
  | .termExpr => "term"
  | .shiftExpr => "shift_expr"
  | .andExpr => "and_expr"
  | .xorExpr => "xor_expr"
  | .orExpr => "or_expr"
  | .powerExpr => "power"
  | .orTest => "or_test"
  | .andTest => "and_test"
  | .notTest => "not_test"
  | .factorExpr => "factor"
  | .conditionalExpr => "ternary"
  | .assignExpr => "assign_expr"
  | .awaitExpr => "await_expr"
  | .call => "funccall"
  | .argumentList => "arguments"
  | .keywordArg => "argvalue"
  | .mappingArg => "kwargs"
  | .starArg => "starargs"
  | .attribute => "getattr"
  | .attrChain => "attr_chain"
  | .subscript => "getitem"
  | .slice => "slice"
  | .listDisplay => "list"
  | .tupleDisplay => "tuple"
  | .setDisplay => "set"
  | .dictDisplay => "dict"
  | .keyValue => "key_value"
  | .dictUnpack => "dict_unpack"
  | .compFor => "comp_for"
  | .asyncCompFor => "async_comp_for"
  | .listComprehension => "list_comprehension"
  | .setComprehension => "set_comprehension"
  | .generatorExpression => "generator_expression"
  | .dictComprehension => "dict_comprehension"
  | .exprStmt => "expr_stmt"
  | .assignStmt => "assign_stmt"
  | .augAssignStmt => "augassign"
  | .annAssignStmt => "annassign"
  | .returnStmt => "return_stmt"
  | .yieldExpr => "yield_expr"
  | .yieldFrom => "yield_from"
  | .raiseStmt => "raise_stmt"
  | .assertStmt => "assert_stmt"
  | .delStmt => "del_stmt"
  | .passStmt => "pass_stmt"
  | .breakStmt => "break_stmt"
  | .continueStmt => "continue_stmt"
  | .globalStmt => "global_stmt"
  | .nonlocalStmt => "nonlocal_stmt"
  | .dottedName => "dotted_name"
  | .dottedAsName => "dotted_as_name"
  | .importAsName => "import_as_name"
  | .importStar => "import_star"
  | .importName => "import_name"
  | .relativeLevel => "relative_level"
  | .importFrom => "import_from"
  | .suite => "suite"
  | .simpleStmt => "simple_stmt"
  | .ifStmt => "if_stmt"
  | .elifClause => "elif_clause"
  | .elseClause => "else_clause"
  | .finallyClause => "finally_clause"
  | .forStmt => "for_stmt"
  | .whileStmt => "while_stmt"
  | .tryStmt => "try_stmt"
  | .exceptClause => "except_clause"
  | .withStmt => "with_stmt"
  | .withItem => "with_item"
  | .functionDef => "funcdef"
  | .parameterList => "parameters"
  | .plainParam => "param"
  | .defaultParam => "default_param"
  | .starParam => "starparams"
  | .mappingParam => "kwparams"
  | .slash => "slash"
  | .lambda => "lambdef"
  | .classDef => "classdef"
  | .decorator => "decorator"
  | .decorators => "decorators"
  | .decorated => "decorated"
  | .asyncStmt => "async_stmt"
  | .fileInput => "file_input"
  | .moduleRoot => "module"

/-- The rule with a name. -/
def ofName? (text : String) : Option Rule :=
  all.find? fun rule => rule.name == text

end Rule

end TreeLowering
