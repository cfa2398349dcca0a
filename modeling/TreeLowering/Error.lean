/-
# Errors

The causes for which lowering fails, each with the words it is reported in. Every
failure is fatal for the tree at hand. A failure inside a rule is reported with the
rule and the source range of the innermost reduction that failed, and with no other.
-/

import TreeLowering.Construct
import TreeLowering.Position

namespace TreeLowering

/-- The cause of a failure. -/
inductive Error where
  /-- A word, symbol or construct outside the known ones. -/
  | unrecognized (what found : String)
  /-- Fields that are not those of the construct. -/
  | incompleteNode (construct : Construct) (detail : String)
  /-- A boolean chain with a number of operators other than one. -/
  | ambiguousBoolean (found : Nat)
  /-- A part of a reduction that is not of the expected kind. -/
  | shape (expected found : String)
  /-- A root that is no module. -/
  | notAModule (found : String)
  /-- A failure while a rule was reduced. -/
  | inRule (rule : String) (position : Position) (cause : Error)
  /-- Text that denotes no parse tree. -/
  | malformedTree
  /-- Text that denotes no options. -/
  | malformedOptions
  /-- A file that cannot be read. -/
  | unreadableFile
  deriving DecidableEq

namespace Error

/-- The words of a failure. -/
def message : Error → String
  | .unrecognized what found => s!"unrecognized {what}: `{found}`"
  | .incompleteNode construct detail => s!"incomplete `{construct.tag}` node: {detail}"
  | .ambiguousBoolean found => s!"boolean chain needs exactly one operator, found {found}"
  | .shape expected found => s!"expected {expected}, found {found}"
  | .notAModule found => s!"parse tree root reduced to {found}, expected a module"
  | .inRule rule position _ => s!"in rule `{rule}` at {position.text}"
  | .malformedTree => "malformed parse tree input"
  | .malformedOptions => "malformed configuration"
  | .unreadableFile => "I/O error"

/-- The code that identifies the kind of a failure. -/
def code : Error → String
  | .unrecognized .. => "serpentes::transform::unrecognized"
  | .incompleteNode .. => "serpentes::transform::incomplete_node"
  | .ambiguousBoolean .. => "serpentes::transform::ambiguous_boolean"
  | .shape .. => "serpentes::transform::shape"
  | .notAModule .. => "serpentes::transform::not_a_module"
  | .inRule .. => "serpentes::transform::rule"
  | .malformedTree => "serpentes::input::json"
  | .malformedOptions => "serpentes::input::config"
  | .unreadableFile => "serpentes::input::io"

/-- Advice on a failure, where there is some. -/
def help? : Error → Option String
  | .unrecognized .. =>
    some "the parse tree contains a construct the node catalog does not cover"
  | .ambiguousBoolean .. =>
    some "each boolean reduction applies one `and`/`or` to its operands"
  | _ => none

/-- A failure attributed to a rule, unless an inner rule has it already. -/
def within (rule : String) (position : Position) : Error → Error
  | .inRule innerRule innerPosition cause => .inRule innerRule innerPosition cause
  | cause => .inRule rule position cause

/-- The cause beneath all rules. -/
def rootCause : Error → Error
  | .inRule _ _ cause => cause.rootCause
  | cause => cause

/-- The rule that a failure is attributed to. -/
def rule? : Error → Option String
  | .inRule rule _ _ => some rule
  | _ => none

end Error

end TreeLowering
