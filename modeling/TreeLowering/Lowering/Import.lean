/-
# Imports

Dotted paths, renamed imports and the two import statements. The level of a relative
one is counted in a machine word and must fit a signed one.
-/

import TreeLowering.Lowering.Reduction

namespace TreeLowering.Lowering

open TreeLowering.Reduced

/-- A dotted path from its segments; dots among the parts are passed over. -/
def dottedName : Handler := fun _ items => do
  let parts ← items.mapM fun item => identifier "module path segment" (some item)
  let segments := parts.filter (· != ".")
  if segments.isEmpty then .error (.shape "module path segment" "nothing")
  else .ok (.dotted (".".intercalate segments))

/-- What an import names: a dotted path or an identifier. -/
def importedName : Option Reduced → Except Error String
  | some (.dotted path) => .ok path
  | item => identifier "imported name" item

/-- `name [as other]` -/
def importAlias : Handler := fun r => Reading.answer do
  let name ← importedName (← Reading.next)
  let asname ← optionalIdentifier "import alias" (← Reading.next)
  Reading.done
  r.build .importName [("name", .text name), ("asname", .ofText? asname)]

/-- The star of an import of everything, as a name without a rename. -/
def importStar : Handler := fun r items => do
  onlyTokens "`*`" items
  r.build .importName [("name", .text "*"), ("asname", .absent)]

/-- `import name, ...` -/
def importModules : Handler := fun r items => do
  let names ← allOf .importName "import alias" (← gather items)
  r.build .importStmt [("names", .list names)]

/-! ## Relative imports -/

/-- Whether a token consists of dots alone. -/
def isDots (t : Token) : Bool :=
  t.text.toList.all (· == '.')

/-- The number of dots in a token of dots. -/
def dotCount (t : Token) : UInt64 :=
  UInt64.ofNat t.text.toList.length

/-- The dots of one part of a relative level. -/
def dotsOf : Reduced → Except Error UInt64
  | .token t =>
    if isDots t then .ok (dotCount t)
    else .error (unexpected "relative import dots" (some (.token t)))
  | other => .error (unexpected "relative import dots" (some other))

/-- The leading dots of a relative import; an ellipsis counts three. -/
def relativeLevel : Handler := fun _ items => do
  let dots ← items.mapM dotsOf
  .ok (.level (dots.foldl (· + ·) 0))

/-- What an import statement has said so far. -/
structure ImportSource where
  level : UInt64
  module? : Option String
  names : List Node

namespace ImportSource

/-- Before anything is said. -/
def empty : ImportSource := ⟨0, none, []⟩

/-- Dots and the module may be given only before the module and the names. -/
def isOpen (s : ImportSource) : Bool :=
  s.module?.isNone && s.names.isEmpty

/-- The next part of an import statement. -/
def add (s : ImportSource) (item : Reduced) : Except Error ImportSource :=
  match item with
  | .absent => .ok s
  | .node _ | .nodes _ | .fragment .. => do
    let found ← gatherItem item
    .ok { s with names := s.names ++ found }
  | .level dots =>
    if s.isOpen then .ok { s with level := s.level + dots }
    else .error (unexpected "import clause" (some item))
  | .token t =>
    if s.isOpen then
      if isDots t then .ok { s with level := s.level + dotCount t }
      else .ok { s with module? := some t.text }
    else .error (unexpected "import clause" (some item))
  | .dotted path =>
    if s.isOpen then .ok { s with module? := some path }
    else .error (unexpected "import clause" (some item))
  | _ => .error (unexpected "import clause" (some item))

end ImportSource

/-- `from [dots][module] import name, ...` -/
def importFrom : Handler := fun r items => do
  let source ← items.foldlM ImportSource.add .empty
  if source.module?.isNone && source.level == 0 then
    .error (.shape "module to import from" "nothing")
  else do
    let names ← allOf .importName "import alias" source.names
    let level := source.level.toNat
    if level < Nat.pow 2 63 then
      r.build .importFrom [("module", .ofText? source.module?), ("names", .list names),
        ("level", .int level)]
    else .error (.shape "relative import level" s!"{level}")

end TreeLowering.Lowering
