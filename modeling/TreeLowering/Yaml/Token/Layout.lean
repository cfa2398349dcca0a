/-
# Layout

How the place of a token decides what it means. A key that no mark announces is known
only by the colon behind it, so the first token that could begin a key is a candidate,
and the tokens from it on wait until the colon comes or can come no more. Columns open
and close mappings in block style.
-/

import TreeLowering.Yaml.Token

namespace TreeLowering.Yaml

/-- A possible key. -/
structure Candidate where
  /-- The tokens from the key on, latest first. -/
  tokens : List Token
  line : Nat
  column : Nat
  /-- Whether nothing but a key may stand there. -/
  required : Bool

/-- The greatest distance of a colon from the key it belongs to. -/
def Candidate.reach : Nat := 1024

/-- Whether a colon at a glyph would make a key of the candidate. -/
def Candidate.isFresh (candidate : Candidate) (g : Glyph) : Bool :=
  candidate.line == g.line && g.column ≤ candidate.column + Candidate.reach

/-- The tokens read so far and what they mean for the next one. -/
structure Layout where
  /-- The tokens before the candidate, latest first. -/
  settled : List Token
  candidate : Option Candidate
  /-- Whether a mapping in flow style is open. -/
  inFlow : Bool
  /-- The column of the open mapping in block style. -/
  column : Option Nat
  /-- Whether the next token may begin a key. -/
  keyAllowed : Bool

namespace Layout

/-- The layout at the start of a text. -/
def initial : Layout := ⟨[], none, false, none, true⟩

/-- A layout with one more token. -/
def emit (token : Token) (layout : Layout) : Layout :=
  match layout.candidate with
  | none => { layout with settled := token :: layout.settled }
  | some k => { layout with candidate := some { k with tokens := token :: k.tokens } }

/-! ## Candidates -/

/-- The candidate is no key, unless it has to be one. -/
def withdraw? (layout : Layout) : Option Layout :=
  match layout.candidate with
  | none => some layout
  | some k =>
    if k.required then none
    else some { layout with settled := k.tokens ++ layout.settled, candidate := none }

/-- The candidate is withdrawn when a colon at the next glyph would be out of reach. -/
def refresh? (g : Glyph) (layout : Layout) : Option Layout :=
  if layout.candidate.all (·.isFresh g) then some layout else layout.withdraw?

/-- The next token, which begins at a glyph, becomes the candidate if it may begin a
key. At the column of the open mapping it has to. -/
def offer? (g : Glyph) (layout : Layout) : Option Layout :=
  if layout.keyAllowed then
    layout.withdraw?.map fun layout =>
      { layout with
        candidate := some ⟨[], g.line, g.column, !layout.inFlow && layout.column == some g.column⟩
        keyAllowed := false }
  else some layout

/-! ## Columns -/

/-- The open mapping in block style ends. -/
def close (layout : Layout) : Layout :=
  match layout.column with
  | none => layout
  | some _ => { layout.emit .blockMappingEnd with column := none }

/-- The open mapping ends before a token left of its column, if style is block. -/
def dedent (g : Glyph) (layout : Layout) : Layout :=
  if !layout.inFlow && layout.column.any (g.column < ·) then layout.close else layout

/-- The mapping that an entry at a column belongs to is open. One inside another denotes
no options. -/
def open? (column : Nat) (layout : Layout) : Option Layout :=
  if layout.inFlow then some layout
  else match layout.column with
    | none => some { layout.emit .blockMappingStart with column := some column }
    | some outer => if outer < column then none else some layout

/-! ## Marks -/

/-- A marker or directive at the start of a line ends what is open. -/
def boundary? (token : Token) (layout : Layout) : Option Layout :=
  if layout.inFlow then none
  else layout.close.withdraw?.map fun layout =>
    { layout.emit token with keyAllowed := false }

/-- A mapping in flow style begins. As a part of another mapping it denotes no options. -/
def enterFlow? (layout : Layout) : Option Layout :=
  if layout.inFlow || layout.column.isSome then none
  else layout.withdraw?.map fun layout =>
    { layout.emit .flowMappingStart with inFlow := true, keyAllowed := true }

/-- The mapping in flow style ends. -/
def leaveFlow? (layout : Layout) : Option Layout :=
  if layout.inFlow then
    layout.withdraw?.map fun layout =>
      { layout.emit .flowMappingEnd with inFlow := false, keyAllowed := false }
  else none

/-- An entry in flow style ends. -/
def separate? (layout : Layout) : Option Layout :=
  if layout.inFlow then
    layout.withdraw?.map fun layout => { layout.emit .flowEntry with keyAllowed := true }
  else none

/-- A mark announces a key. -/
def key? (g : Glyph) (layout : Layout) : Option Layout := do
  if layout.inFlow || layout.keyAllowed then
    let layout ← layout.open? g.column
    let layout ← layout.withdraw?
    return { layout.emit .key with keyAllowed := !layout.inFlow }
  else none

/-- A colon makes a key of the candidate. Without one it has a key that was announced
or left out. -/
def value? (g : Glyph) (layout : Layout) : Option Layout :=
  match layout.candidate with
  | some k =>
    (open? k.column { layout with candidate := none }).map fun layout =>
      { layout with
        settled := .value :: (k.tokens ++ .key :: layout.settled)
        keyAllowed := false }
  | none =>
    if layout.inFlow || layout.keyAllowed then
      (layout.open? g.column).map fun layout =>
        { layout.emit .value with keyAllowed := !layout.inFlow }
    else none

/-- A token that may begin a key. -/
def part? (g : Glyph) (token : Token) (layout : Layout) : Option Layout :=
  (layout.offer? g).map (emit token)

/-- All tokens, once the text has ended. -/
def finish? (layout : Layout) : Option (List Token) :=
  layout.close.withdraw?.map fun layout => layout.settled.reverse

end Layout

end TreeLowering.Yaml
