/-
# Operators

The operators of expressions, each in one of four classes, and how each class is
spelled. A spelling is looked up within one class: the same symbol may be a binary
operator in one place and a unary one in another.
-/

namespace TreeLowering

/-- The kind of application that an operator takes part in. -/
inductive OperatorClass where
  | binary
  | unary
  | comparison
  | boolean
  deriving DecidableEq

/-- An operator of the target tree. -/
inductive Operator where
  | add
  | sub
  | mult
  | matMult
  | div
  | floorDiv
  | mod
  | pow
  | leftShift
  | rightShift
  | bitOr
  | bitXor
  | bitAnd
  | invert
  | not
  | plus
  | minus
  | equal
  | notEqual
  | less
  | lessEqual
  | greater
  | greaterEqual
  | identical
  | notIdentical
  | member
  | notMember
  | and
  | or
  deriving DecidableEq

namespace Operator

/-- Every operator. -/
def all : List Operator := [
    .add, .sub, .mult, .matMult, .div, .floorDiv, .mod, .pow, .leftShift, .rightShift,
    .bitOr, .bitXor, .bitAnd, .invert, .not, .plus, .minus, .equal, .notEqual, .less,
    .lessEqual, .greater, .greaterEqual, .identical, .notIdentical, .member, .notMember,
    .and, .or]

/-- The name a backend knows the operator by. -/
def tag : Operator → String
  | .add => "Add"
  | .sub => "Sub"
  | .mult => "Mult"
  | .matMult => "MatMult"
  | .div => "Div"
  | .floorDiv => "FloorDiv"
  | .mod => "Mod"
  | .pow => "Pow"
  | .leftShift => "LShift"
  | .rightShift => "RShift"
  | .bitOr => "BitOr"
  | .bitXor => "BitXor"
  | .bitAnd => "BitAnd"
  | .invert => "Invert"
  | .not => "Not"
  | .plus => "UAdd"
  | .minus => "USub"
  | .equal => "Eq"
  | .notEqual => "NotEq"
  | .less => "Lt"
  | .lessEqual => "LtE"
  | .greater => "Gt"
  | .greaterEqual => "GtE"
  | .identical => "Is"
  | .notIdentical => "IsNot"
  | .member => "In"
  | .notMember => "NotIn"
  | .and => "And"
  | .or => "Or"

/-- The class of an operator. -/
def operatorClass : Operator → OperatorClass
  | .add | .sub | .mult | .matMult | .div | .floorDiv | .mod | .pow | .leftShift
  | .rightShift | .bitOr | .bitXor | .bitAnd => .binary
  | .invert | .not | .plus | .minus => .unary
  | .equal | .notEqual | .less | .lessEqual | .greater | .greaterEqual | .identical
  | .notIdentical | .member | .notMember => .comparison
  | .and | .or => .boolean

/-- The spellings of the arithmetic, shift and bitwise operators. -/
def binarySpellings : List (String × Operator) := [
    ("+", .add), ("-", .sub), ("*", .mult), ("@", .matMult), ("/", .div),
    ("//", .floorDiv), ("%", .mod), ("**", .pow), ("<<", .leftShift), (">>", .rightShift),
    ("|", .bitOr), ("^", .bitXor), ("&", .bitAnd)]

/-- The spellings of the unary operators. -/
def unarySpellings : List (String × Operator) := [
    ("+", .plus), ("-", .minus), ("~", .invert), ("not", .not)]

/-- The spellings of the comparison operators; words stand one blank apart. -/
def comparisonSpellings : List (String × Operator) := [
    ("==", .equal), ("!=", .notEqual), ("<>", .notEqual), ("<", .less), ("<=", .lessEqual),
    (">", .greater), (">=", .greaterEqual), ("is", .identical), ("is not", .notIdentical),
    ("in", .member), ("not in", .notMember)]

/-- The spellings of the boolean operators. -/
def booleanSpellings : List (String × Operator) := [("and", .and), ("or", .or)]

/-- The binary operator with a spelling. -/
def binary? (text : String) : Option Operator :=
  binarySpellings.lookup text

/-- The unary operator with a spelling. -/
def unary? (text : String) : Option Operator :=
  unarySpellings.lookup text

/-- The comparison operator with a spelling. -/
def comparison? (text : String) : Option Operator :=
  comparisonSpellings.lookup text

/-- The boolean operator with a spelling. -/
def boolean? (text : String) : Option Operator :=
  booleanSpellings.lookup text

/-- The binary operator of an augmented assignment, whose spelling has an equals sign
behind it. -/
def augmented? (text : String) : Option Operator :=
  match text.toList.reverse with
  | '=' :: symbol => binary? (String.ofList symbol.reverse)
  | _ => none

end Operator

end TreeLowering
