/-
# Parameter lists

The pieces of a parameter list and the signature they add up to. Pieces are taken in
source order, and each is placed by what came before it: a slash closes the
positional-only parameters, a star opens the keyword-only ones, and nothing follows a
double star.
-/

import TreeLowering.Lowering.Reduction

namespace TreeLowering.Lowering

open TreeLowering.Reduced

/-- The parameters of a list by the way in which they are passed. -/
structure Signature where
  positionalOnly : List Node
  positional : List Node
  /-- The defaults of the last positional parameters. -/
  defaults : List Node
  /-- Present once a star has been seen, with its parameter if it has one. -/
  star? : Option (Option Node)
  keywordOnly : List Node
  /-- The default of each keyword-only parameter. -/
  keywordDefaults : List (Option Node)
  mapping? : Option Node

/-- A parameter is a node of its own construct. -/
def checkParameter (n : Node) : Except Error Unit :=
  if n.construct = .parameter then .ok ()
  else .error (unexpected "parameter" (some (.node n)))

namespace Signature

/-- No parameters. -/
def empty : Signature := ⟨[], [], [], none, [], [], none⟩

/-- A plain parameter. Before a star, those with a default come last; after it they
stand in any order. -/
def addPlain (s : Signature) (parameter : Node) (default? : Option Node) :
    Except Error Signature := do
  checkParameter parameter
  if s.star?.isSome then
    .ok { s with
      keywordOnly := s.keywordOnly ++ [parameter]
      keywordDefaults := s.keywordDefaults ++ [default?] }
  else match default? with
    | some value =>
      .ok { s with
        positional := s.positional ++ [parameter]
        defaults := s.defaults ++ [value] }
    | none =>
      if s.defaults.isEmpty then .ok { s with positional := s.positional ++ [parameter] }
      else .error (.shape "parameter default" "non-default parameter after a default")

/-- Plain parameters without defaults. -/
def addAll (s : Signature) (parameters : List Node) : Except Error Signature :=
  parameters.foldlM (fun s parameter => s.addPlain parameter none) s

/-- The slash: the parameters so far are positional-only. -/
def addSlash (s : Signature) : Except Error Signature :=
  if s.star?.isSome || !s.positionalOnly.isEmpty || s.positional.isEmpty then
    .error (.shape "`/` after at least one positional parameter" "misplaced `/`")
  else .ok { s with positionalOnly := s.positional, positional := [] }

/-- The star, of which there may be one. -/
def addStar (s : Signature) (parameter? : Option Node) : Except Error Signature :=
  if s.star?.isSome then .error (.shape "a single `*` parameter" "a second `*`")
  else match parameter? with
    | some p => do
      checkParameter p
      .ok { s with star? := some (some p) }
    | none => .ok { s with star? := some none }

/-- The double star. -/
def addMapping (s : Signature) (parameter : Node) : Except Error Signature := do
  checkParameter parameter
  .ok { s with mapping? := some parameter }

mutual

/-- The next piece. After a double star only tokens and placeholders are let pass. -/
def add (s : Signature) : Reduced → Except Error Signature
  | .token _ => .ok s
  | .absent => .ok s
  | .fragment rule children position =>
    if s.mapping?.isSome then
      .error (.shape "nothing after `**` parameter"
        (Reduced.fragment rule children position).describe)
    else addPieces s children
  | other =>
    if s.mapping?.isSome then .error (.shape "nothing after `**` parameter" other.describe)
    else match other with
      | .node n => s.addPlain n none
      | .nodes ns => s.addAll ns
      | .parameter (.plain p default?) => s.addPlain p default?
      | .parameter (.star p?) => s.addStar p?
      | .parameter (.mapping p) => s.addMapping p
      | .parameter .slash => s.addSlash
      | _ => .error (unexpected "parameter" (some other))

/-- The pieces of a list, one after another. -/
def addPieces (s : Signature) : List Reduced → Except Error Signature
  | [] => .ok s
  | piece :: rest =>
    match add s piece with
    | .error e => .error e
    | .ok next => addPieces next rest

end

/-- The signature of a list of pieces. -/
def ofPieces (pieces : List Reduced) : Except Error Signature :=
  addPieces empty pieces

/-- The node of a signature. A star without a name must have a parameter after it. -/
def build (s : Signature) (position : Position) : Except Error Node :=
  if s.star?.any Option.isNone && s.keywordOnly.isEmpty then
    .error (.shape "keyword-only parameter after bare `*`" "nothing")
  else
    Node.build .arguments position [
      ("posonlyargs", .list s.positionalOnly), ("args", .list s.positional),
      ("vararg", .ofOption s.star?.join), ("kwonlyargs", .list s.keywordOnly),
      ("kw_defaults", .sparse s.keywordDefaults), ("kwarg", .ofOption s.mapping?),
      ("defaults", .list s.defaults)]

end Signature

/-- `name [: annotation]` -/
def plainParameter : Handler := fun r => Reading.answer do
  let arg ← Reading.identifier "parameter name"
  let annotation ← Reading.optionalNode "parameter annotation"
  Reading.done
  r.build .parameter [("arg", .text arg), ("annotation", .ofOption annotation)]

/-- `parameter = default` -/
def defaultParameter : Handler := fun _ => Reading.answer do
  let parameter ← Reading.node "parameter"
  let value ← Reading.node "parameter default"
  Reading.done
  return .parameter (.plain parameter (some value))

/-- `*parameter`, or a star alone. -/
def starParameter : Handler := fun _ => Reading.answer do
  let parameter ← Reading.optionalNode "variadic parameter"
  Reading.done
  return .parameter (.star parameter)

/-- `**parameter` -/
def mappingParameter : Handler := fun _ => Reading.answer do
  let parameter ← Reading.node "keyword parameter"
  Reading.done
  return .parameter (.mapping parameter)

/-- `/` -/
def slash : Handler := fun _ _ =>
  .ok (.parameter .slash)

/-- A parameter list. -/
def parameterList : Handler := fun r items => do
  let signature ← Signature.ofPieces items
  (signature.build r.position).map .node

/-- The parameters of a definition: a finished list, a single piece or a fragment of
pieces, or nothing. -/
def signatureNode (position : Position) : Option Reduced → Except Error Node
  | none => Signature.empty.build position
  | some .absent => Signature.empty.build position
  | some (.node n) =>
    if n.construct = .arguments then .ok n
    else do (← Signature.ofPieces [.node n]).build position
  | some (.fragment rule children range) => do
    (← Signature.ofPieces [.fragment rule children range]).build position
  | some (.parameter p) => do (← Signature.ofPieces [.parameter p]).build position
  | item => .error (unexpected "parameter list" item)

end TreeLowering.Lowering
