/-
# Compound statements

Conditionals, loops, `try` and `with`. Trailing clauses are held until the statement
around them puts them in their place; a chain of `elif` clauses becomes nested
conditionals.
-/

import TreeLowering.Lowering.Reduction
import TreeLowering.Node.Bind

namespace TreeLowering.Lowering

open TreeLowering.Reduced

/-- A trailing clause, held for the statement around it. -/
def clause : Handler := fun r => Reading.answer do
  match r.rule with
  | .elifClause =>
    let test ← Reading.node "elif condition"
    let body ← block "elif block" (← Reading.next)
    Reading.done
    return .clause (.elif test body r.position)
  | .elseClause =>
    let body ← block "else block" (← Reading.next)
    Reading.done
    return .clause (.otherwise body)
  | .finallyClause =>
    let body ← block "finally block" (← Reading.next)
    Reading.done
    return .clause (.finish body)
  | other => .error (.unrecognized "clause" other.name)

/-! ## Conditionals -/

/-- A conditional statement. -/
def conditionalAt (position : Position) (test : Node) (body orelse : List Node) :
    Except Error Node :=
  Node.build .ifStmt position
    [("test", .node test), ("body", .list body), ("orelse", .list orelse)]

/-- After the `else` of a conditional nothing but placeholders may follow. -/
def noMoreBranches : List Reduced → Except Error Unit
  | [] => .ok ()
  | .absent :: rest => noMoreBranches rest
  | other :: _ => .error (unexpected "elif or else clause" (some other))

/-- The statements that are run when the condition before the given clauses fails: any
number of `elif` clauses and then at most one `else`. -/
def branches : List Reduced → Except Error (List Node)
  | [] => .ok []
  | .absent :: rest => branches rest
  | .clause (.elif test body position) :: rest => do
    let orelse ← branches rest
    let inner ← conditionalAt position test body orelse
    .ok [inner]
  | .clause (.otherwise body) :: rest => do
    noMoreBranches rest
    .ok body
  | other :: _ => .error (unexpected "elif or else clause" (some other))

/-- `if` with its `elif` and `else` clauses. -/
def ifStatement : Handler := fun r => Reading.answer do
  let test ← Reading.node "if condition"
  let body ← block "if block" (← Reading.next)
  let orelse ← branches (← Reading.drain)
  (conditionalAt r.position test body orelse).map .node

/-! ## Loops -/

/-- `for target in iterable: body [else: orelse]` -/
def forLoop : Handler := fun r => Reading.answer do
  let target ← (← r.expression "loop target" (← Reading.next)).bind .write
  let iterable ← r.expression "loop iterable" (← Reading.next)
  let body ← block "loop block" (← Reading.next)
  let orelse ← elseBlock (← Reading.next)
  Reading.done
  r.build .forStmt [("target", .node target), ("iter", .node iterable), ("body", .list body),
    ("orelse", .list orelse)]

/-- `while test: body [else: orelse]` -/
def whileLoop : Handler := fun r => Reading.answer do
  let test ← Reading.node "loop condition"
  let body ← block "loop block" (← Reading.next)
  let orelse ← elseBlock (← Reading.next)
  Reading.done
  r.build .whileStmt [("test", .node test), ("body", .list body), ("orelse", .list orelse)]

/-! ## Exceptions -/

/-- The clauses of a `try` statement so far. -/
structure TryClauses where
  handlers : List Node
  otherwise? : Option (List Node)
  finally? : Option (List Node)

namespace TryClauses

/-- Before any clause. -/
def empty : TryClauses := ⟨[], none, none⟩

/-- The next clause: handlers come before an `else`, and that before a `finally`. -/
def add (c : TryClauses) (item : Reduced) : Except Error TryClauses :=
  match item with
  | .absent => .ok c
  | .clause (.otherwise body) =>
    if c.otherwise?.isNone && c.finally?.isNone then .ok { c with otherwise? := some body }
    else .error (unexpected "try clause" (some item))
  | .clause (.finish body) =>
    if c.finally?.isNone then .ok { c with finally? := some body }
    else .error (unexpected "try clause" (some item))
  | .node _ | .nodes _ | .fragment .. =>
    if c.otherwise?.isNone && c.finally?.isNone then do
      let found ← gatherItem item
      .ok { c with handlers := c.handlers ++ found }
    else .error (unexpected "try clause" (some item))
  | _ => .error (unexpected "try clause" (some item))

/-- The clauses must suffice for a statement: all handlers are handlers, and there is
one unless there is a `finally` and no `else`. -/
def check (c : TryClauses) : Except Error Unit :=
  match c.handlers.find? fun n => n.construct ≠ .exceptHandler with
  | some stray => .error (unexpected "except clause" (some (.node stray)))
  | none =>
    if c.handlers.isEmpty && c.finally?.isNone then
      .error (.shape "except or finally clause" "nothing")
    else if c.handlers.isEmpty && c.otherwise?.isSome then
      .error (.shape "except clause before else" "else block")
    else .ok ()

end TryClauses

/-- `try` with its handlers, `else` and `finally`. -/
def tryStatement : Handler := fun r => Reading.answer do
  let body ← block "try block" (← Reading.next)
  let trailing ← Reading.drain
  let found ← (trailing.foldlM TryClauses.add .empty : Except Error TryClauses)
  found.check
  r.build .tryStmt [("body", .list body), ("handlers", .list found.handlers),
    ("orelse", .list (found.otherwise?.getD [])), ("finalbody", .list (found.finally?.getD []))]

/-- `except [type [as name]]: body` -/
def exceptClause : Handler := fun r => Reading.answer do
  let body ← block "except block" (← Reading.nextBack)
  let caught ← Reading.optionalNode "exception type"
  let name ← optionalIdentifier "exception name" (← Reading.next)
  Reading.done
  if caught.isNone && name.isSome then .error (.shape "exception type" "name without type")
  else
    r.build .exceptHandler [("type", .ofOption caught), ("name", .ofText? name),
      ("body", .list body)]

/-! ## Context managers -/

/-- `with item, ...: body` -/
def withStatement : Handler := fun r => Reading.answer do
  let body ← block "with block" (← Reading.nextBack)
  let managers ← allOf .withItem "with item" (← gather (← Reading.drain))
  r.build .withStmt [("items", .list managers), ("body", .list body)]

/-- A target that may be missing. -/
def bindOption (usage : Usage) : Option Node → Except Error (Option Node)
  | some n => (n.bind usage).map some
  | none => .ok none

/-- `manager [as target]` -/
def withItem : Handler := fun r => Reading.answer do
  let manager ← Reading.node "context manager"
  let target ← bindOption .write (← Reading.optionalNode "with target")
  Reading.done
  r.build .withItem [("context_expr", .node manager), ("optional_vars", .ofOption target)]

/-! ## The root -/

/-- A module with its statements. -/
def moduleRoot : Handler := fun r items => do
  let body ← gather items
  r.build .module [("body", .list body), ("type_ignores", .list [])]

end TreeLowering.Lowering
