/-
# Constructs of the target tree

The closed catalogue of constructs that a backend builds, with the slots each of them
requires. The order of the slots is the order in which they are written out. How many
slots a construct has, and which, is stated here and nowhere else.
-/

namespace TreeLowering

/-- A construct of the target tree. -/
inductive Construct where
  | constant
  | list
  | tuple
  | set
  | dict
  | name
  | starred
  | exprStmt
  | unaryOp
  | binOp
  | boolOp
  | compare
  | call
  | keyword
  | ifExp
  | attribute
  | namedExpr
  | subscript
  | slice
  | listComp
  | setComp
  | generatorExp
  | dictComp
  | comprehension
  | assign
  | augAssign
  | annAssign
  | raiseStmt
  | assertStmt
  | deleteStmt
  | passStmt
  | importStmt
  | importFrom
  | importName
  | ifStmt
  | forStmt
  | whileStmt
  | breakStmt
  | continueStmt
  | tryStmt
  | exceptHandler
  | withStmt
  | withItem
  | functionDef
  | lambda
  | arguments
  | parameter
  | returnStmt
  | yieldExpr
  | yieldFrom
  | globalStmt
  | nonlocalStmt
  | classDef
  | asyncFunctionDef
  | awaitExpr
  | asyncFor
  | asyncWith
  | module
  deriving DecidableEq

namespace Construct

/-- Every construct, in catalogue order. -/
def all : List Construct := [
    .constant, .list, .tuple, .set, .dict, .name, .starred, .exprStmt, .unaryOp, .binOp,
    .boolOp, .compare, .call, .keyword, .ifExp, .attribute, .namedExpr, .subscript, .slice,
    .listComp, .setComp, .generatorExp, .dictComp, .comprehension, .assign, .augAssign,
    .annAssign, .raiseStmt, .assertStmt, .deleteStmt, .passStmt, .importStmt, .importFrom,
    .importName, .ifStmt, .forStmt, .whileStmt, .breakStmt, .continueStmt, .tryStmt,
    .exceptHandler, .withStmt, .withItem, .functionDef, .lambda, .arguments, .parameter,
    .returnStmt, .yieldExpr, .yieldFrom, .globalStmt, .nonlocalStmt, .classDef,
    .asyncFunctionDef, .awaitExpr, .asyncFor, .asyncWith, .module]

/-- The name a backend knows the construct by. -/
def tag : Construct → String
  | .constant => "Constant"
  | .list => "List"
  | .tuple => "Tuple"
  | .set => "Set"
  | .dict => "Dict"
  | .name => "Name"
  | .starred => "Starred"
  | .exprStmt => "Expr"
  | .unaryOp => "UnaryOp"
  | .binOp => "BinOp"
  | .boolOp => "BoolOp"
  | .compare => "Compare"
  | .call => "Call"
  | .keyword => "keyword"
  | .ifExp => "IfExp"
  | .attribute => "Attribute"
  | .namedExpr => "NamedExpr"
  | .subscript => "Subscript"
  | .slice => "Slice"
  | .listComp => "ListComp"
  | .setComp => "SetComp"
  | .generatorExp => "GeneratorExp"
  | .dictComp => "DictComp"
  | .comprehension => "comprehension"
  | .assign => "Assign"
  | .augAssign => "AugAssign"
  | .annAssign => "AnnAssign"
  | .raiseStmt => "Raise"
  | .assertStmt => "Assert"
  | .deleteStmt => "Delete"
  | .passStmt => "Pass"
  | .importStmt => "Import"
  | .importFrom => "ImportFrom"
  | .importName => "alias"
  | .ifStmt => "If"
  | .forStmt => "For"
  | .whileStmt => "While"
  | .breakStmt => "Break"
  | .continueStmt => "Continue"
  | .tryStmt => "Try"
  | .exceptHandler => "ExceptHandler"
  | .withStmt => "With"
  | .withItem => "withitem"
  | .functionDef => "FunctionDef"
  | .lambda => "Lambda"
  | .arguments => "arguments"
  | .parameter => "arg"
  | .returnStmt => "Return"
  | .yieldExpr => "Yield"
  | .yieldFrom => "YieldFrom"
  | .globalStmt => "Global"
  | .nonlocalStmt => "Nonlocal"
  | .classDef => "ClassDef"
  | .asyncFunctionDef => "AsyncFunctionDef"
  | .awaitExpr => "Await"
  | .asyncFor => "AsyncFor"
  | .asyncWith => "AsyncWith"
  | .module => "Module"

/-- The slots of a construct, in the order in which they are written out. -/
def slots : Construct → List String
  | .constant => ["value"]
  | .list => ["elts", "ctx"]
  | .tuple => ["elts", "ctx"]
  | .set => ["elts"]
  | .dict => ["keys", "values"]
  | .name => ["id", "ctx"]
  | .starred => ["value", "ctx"]
  | .exprStmt => ["value"]
  | .unaryOp => ["op", "operand"]
  | .binOp => ["left", "op", "right"]
  | .boolOp => ["op", "values"]
  | .compare => ["left", "ops", "comparators"]
  | .call => ["func", "args", "keywords"]
  | .keyword => ["arg", "value"]
  | .ifExp => ["test", "body", "orelse"]
  | .attribute => ["value", "attr", "ctx"]
  | .namedExpr => ["target", "value"]
  | .subscript => ["value", "slice", "ctx"]
  | .slice => ["lower", "upper", "step"]
  | .listComp => ["elt", "generators"]
  | .setComp => ["elt", "generators"]
  | .generatorExp => ["elt", "generators"]
  | .dictComp => ["key", "value", "generators"]
  | .comprehension => ["target", "iter", "ifs", "is_async"]
  | .assign => ["targets", "value"]
  | .augAssign => ["target", "op", "value"]
  | .annAssign => ["target", "annotation", "value", "simple"]
  | .raiseStmt => ["exc", "cause"]
  | .assertStmt => ["test", "msg"]
  | .deleteStmt => ["targets"]
  | .passStmt => []
  | .importStmt => ["names"]
  | .importFrom => ["module", "names", "level"]
  | .importName => ["name", "asname"]
  | .ifStmt => ["test", "body", "orelse"]
  | .forStmt => ["target", "iter", "body", "orelse"]
  | .whileStmt => ["test", "body", "orelse"]
  | .breakStmt => []
  | .continueStmt => []
  | .tryStmt => ["body", "handlers", "orelse", "finalbody"]
  | .exceptHandler => ["type", "name", "body"]
  | .withStmt => ["items", "body"]
  | .withItem => ["context_expr", "optional_vars"]
  | .functionDef => ["name", "args", "body", "decorator_list", "returns"]
  | .lambda => ["args", "body"]
  | .arguments => ["posonlyargs", "args", "vararg", "kwonlyargs", "kw_defaults", "kwarg", "defaults"]
  | .parameter => ["arg", "annotation"]
  | .returnStmt => ["value"]
  | .yieldExpr => ["value"]
  | .yieldFrom => ["value"]
  | .globalStmt => ["names"]
  | .nonlocalStmt => ["names"]
  | .classDef => ["name", "bases", "keywords", "body", "decorator_list"]
  | .asyncFunctionDef => ["name", "args", "body", "decorator_list", "returns"]
  | .awaitExpr => ["value"]
  | .asyncFor => ["target", "iter", "body", "orelse"]
  | .asyncWith => ["items", "body"]
  | .module => ["body", "type_ignores"]

/-- Whether a construct has a slot. -/
def hasSlot (construct : Construct) (slot : String) : Bool :=
  construct.slots.contains slot

/-- The asynchronous twin of a statement, if it has one. -/
def asyncTwin? : Construct → Option Construct
  | .functionDef => some .asyncFunctionDef
  | .forStmt => some .asyncFor
  | .withStmt => some .asyncWith
  | _ => none

end Construct

end TreeLowering
