/-
# Definitions

Functions, lambdas and classes, the decorators before them and the asynchronous forms
of statements.
-/

import TreeLowering.Lowering.Call
import TreeLowering.Lowering.Signature

namespace TreeLowering.Lowering

open TreeLowering.Reduced

/-- Whether a node is a parameter or a list of parameters. -/
def isParameterNode (n : Node) : Bool :=
  n.construct = .arguments || n.construct = .parameter

/-- A parameter slot and a return annotation. -/
def parametersAndReturns (position : Position) :
    List Reduced → Except Error (Node × Option Node) :=
  Reading.answer do
    let args ← signatureNode position (← Reading.next)
    let returns ← Reading.optionalNode "return annotation"
    Reading.done
    return (args, returns)

/-- The parameters and the return annotation that stand between the name and the body
of a function. A lone node that is no parameter is the annotation. -/
def functionHeader (position : Position) (items : List Reduced) :
    Except Error (Node × Option Node) :=
  match Queue.next items with
  | (some (.node n), rest) =>
    if isParameterNode n then parametersAndReturns position items
    else do
      let args ← signatureNode position none
      noMore rest
      .ok (args, some n)
  | _ => parametersAndReturns position items

/-- `def name(parameters) [-> returns]: body` -/
def functionDefinition : Handler := fun r => Reading.answer do
  let name ← Reading.identifier "function name"
  let body ← block "function body" (← Reading.nextBack)
  let (args, returns) ← functionHeader r.position (← Reading.drain)
  r.build .functionDef [("name", .text name), ("args", .node args), ("body", .list body),
    ("decorator_list", .list []), ("returns", .ofOption returns)]

/-- `lambda parameters: body` -/
def lambda : Handler := fun r => Reading.answer do
  let body ← Reading.nodeBack "lambda body"
  let args ← signatureNode r.position (← Reading.next)
  Reading.done
  r.build .lambda [("args", .node args), ("body", .node body)]

/-- `class name(arguments): body` -/
def classDefinition : Handler := fun r => Reading.answer do
  let name ← Reading.identifier "class name"
  let body ← block "class body" (← Reading.nextBack)
  let (bases, keywords) ← classifyArguments (← Reading.drain)
  r.build .classDef [("name", .text name), ("bases", .list bases), ("keywords", .list keywords),
    ("body", .list body), ("decorator_list", .list [])]

/-! ## Decorators -/

/-- The segments of a text between dots; without a dot, the text alone. -/
def dotSegments : List Char → List (List Char)
  | [] => [[]]
  | c :: rest =>
    if c = '.' then [] :: dotSegments rest
    else (dotSegments rest).modifyHead (c :: ·)

/-- Attribute accesses on a node, all at one position. -/
def attributePath (position : Position) (base : Node) : List (List Char) → Except Error Node
  | [] => .ok base
  | segment :: rest => do
    let link ← Node.build .attribute position [("value", .node base),
      ("attr", .text (String.ofList segment)), ("ctx", .usage .read)]
    attributePath position link rest

/-- A dotted path as an expression: a name and attribute accesses on it. -/
def pathReference (position : Position) (path : String) : Except Error Node :=
  match dotSegments path.toList with
  | first :: rest =>
    if first.isEmpty then .error (.unrecognized "decorator name" path)
    else do
      let base ← Node.build .name position
        [("id", .text (String.ofList first)), ("ctx", .usage .read)]
      attributePath position base rest
  | [] => .error (.unrecognized "decorator name" path)

/-- What a decorator refers to. -/
def decoratorReference (position : Position) : Option Reduced → Except Error Node
  | some (.dotted path) => pathReference position path
  | some (.node n) => .ok n
  | item => .error (unexpected "decorator" item)

/-- `@reference` or `@reference(arguments)`. Arguments make it a call even if there are
none between the parentheses. -/
def decorator : Handler := fun r => Reading.answer do
  let func ← decoratorReference r.position (← Reading.next)
  let arguments? ← Reading.next
  Reading.done
  match arguments? with
  | none => return .node func
  | some .absent => return .node func
  | some arguments => callOf r func [arguments]

/-- Whether decorators may stand before a node. -/
def isDecorable (n : Node) : Bool :=
  n.construct = .functionDef || n.construct = .asyncFunctionDef || n.construct = .classDef

/-- A definition with the decorators before it. -/
def decorated : Handler := fun _ => Reading.answer do
  let definition ← Reading.nodeBack "decorated definition"
  if isDecorable definition then do
    let decorators ← gather (← Reading.drain)
    if decorators.isEmpty then .error (.shape "decorator" "nothing")
    else (definition.setField "decorator_list" (.list decorators)).map .node
  else .error (.unrecognized "decorated definition" definition.construct.tag)

/-- A statement in its asynchronous form, at the range that includes the keyword. -/
def asyncStatement : Handler := fun r => Reading.answer do
  let statement ← Reading.nodeBack "async statement"
  onlyTokens "async statement" (← Reading.drain)
  match statement.construct.asyncTwin? with
  | some twin => r.build twin statement.fields
  | none => .error (.unrecognized "async statement" statement.construct.tag)

end TreeLowering.Lowering
