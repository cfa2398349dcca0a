/-
# The tokens of a text

A text is divided into tokens from its start on. Each token takes at least one glyph, so
their number is bounded by the length of the text.
-/

import TreeLowering.Yaml.Indented
import TreeLowering.Yaml.Phrase
import TreeLowering.Yaml.Token.Layout

namespace TreeLowering.Yaml

/-- Whether a glyph between tokens means nothing. A byte order mark may stand at the
start of a line, and a tab where no key may begin. -/
def Layout.skips (layout : Layout) (g : Glyph) : Bool :=
  g.char == ' ' || (g.char == '\t' && (layout.inFlow || !layout.keyAllowed)) ||
    (g.char == '\ufeff' && g.column == 0)

/-- The next token's layout and text after white space and comments, of which one may
be open. In block style a key may begin on every new line. -/
def Layout.skip (comment : Bool) (layout : Layout) : List Glyph → Layout × List Glyph
  | [] => (layout, [])
  | g :: rest =>
    if g.isBreak then
      skip false { layout with keyAllowed := layout.keyAllowed || !layout.inFlow } rest
    else if comment || g.char == '#' then skip true layout rest
    else if layout.skips g then skip false layout rest
    else (layout, g :: rest)

/-- The characters that begin no plain scalar, or do so only before certain others. -/
def isIndicator (c : Char) : Bool :=
  isFlowMark c ||
    ['-', '?', ':', '#', '&', '*', '!', '|', '>', '\'', '"', '%', '@', '\x60'].contains c

/-- Whether a plain scalar begins with a character before a text. -/
def beginsPlain (inFlow : Bool) (c : Char) (rest : List Glyph) : Bool :=
  !isIndicator c || (c == '-' && !rest.head?.any Glyph.isSpace) ||
    (!inFlow && (c == '?' || c == ':') && !atGap rest)

namespace Layout

/-- A directive or marker, which stands at the start of a line. -/
def border? (layout : Layout) (g : Glyph) (rest : List Glyph) :
    Option (Layout × List Glyph) := do
  if g.char == '%' then
    let (directive, rest) ← directive? rest
    return (← layout.boundary? (.directive directive), rest)
  else
    let token := if g.char == '-' then Token.documentStart else .documentEnd
    return (← layout.boundary? token, rest.drop 2)

/-- A property of a node. -/
def property? (layout : Layout) (g : Glyph) (rest : List Glyph) :
    Option (Layout × List Glyph) := do
  if g.char == '&' then
    let rest ← afterAnchor? rest
    return (← layout.part? g .anchor, rest)
  else
    let (tag, rest) ← tag? rest
    if atGap rest || (layout.inFlow && startsWith ',' rest) then
      return (← layout.part? g (.tag tag), rest)
    else none

/-- A quoted or plain scalar. After a plain one that a line end follows in its gap, a
key may begin. -/
def running? (layout : Layout) (g : Glyph) (rest : List Glyph) :
    Option (Layout × List Glyph) := do
  if g.char == '\'' then
    let (text, rest) ← singleQuoted? .empty rest
    return (← layout.part? g (.scalar false text), rest)
  else if g.char == '"' then
    let (text, rest) ← doubleQuoted? .empty 0 rest
    return (← layout.part? g (.scalar false text), rest)
  else if beginsPlain layout.inFlow g.char rest then
    let (phrase, rest) ← plain? layout.inFlow (layout.column.elim 0 (· + 1)) .empty (g :: rest)
    let layout ← layout.part? g (.scalar true phrase.text)
    return ({ layout with keyAllowed := layout.keyAllowed || phrase.gap.isBroken }, rest)
  else none

/-- A scalar in block style, which is no candidate. -/
def block? (layout : Layout) (folded : Bool) (rest : List Glyph) :
    Option (Layout × List Glyph) := do
  let layout ← layout.withdraw?
  let (text, rest) ← indented? folded layout.column rest
  return ({ layout.emit (.scalar false text) with keyAllowed := true }, rest)

/-- The token that begins with a glyph. Where several readings are possible, the first
one holds. A dash before a gap would begin a sequence. -/
def token? (layout : Layout) (g : Glyph) (rest : List Glyph) :
    Option (Layout × List Glyph) :=
  let c := g.char
  if (g.column == 0 && c == '%') || atBoundary (g :: rest) then layout.border? g rest
  else if c == '\x7b' then layout.enterFlow?.map (·, rest)
  else if c == '\x7d' then layout.leaveFlow?.map (·, rest)
  else if c == ',' then layout.separate?.map (·, rest)
  else if c == '-' && atGap rest then none
  else if c == '?' && (layout.inFlow || atGap rest) then (layout.key? g).map (·, rest)
  else if c == ':' && (layout.inFlow || atGap rest) then (layout.value? g).map (·, rest)
  else if c == '&' || c == '!' then layout.property? g rest
  else if (c == '|' || c == '>') && !layout.inFlow then layout.block? (c == '>') rest
  else layout.running? g rest

/-- The tokens of a text from a layout on, if they begin at fewer than `bound` glyphs. -/
def tokens? (layout : Layout) : Nat → List Glyph → Option (List Token)
  | 0, _ => none
  | bound + 1, text =>
    match layout.skip false text with
    | (layout, []) => layout.finish?
    | (layout, g :: rest) => do
      let layout ← layout.refresh? g
      let (layout, rest) ← (layout.dedent g).token? g rest
      tokens? layout bound rest

end Layout

/-- The tokens of a text. -/
def Token.ofGlyphs? (text : List Glyph) : Option (List Token) :=
  Layout.initial.tokens? (text.length + 1) text

end TreeLowering.Yaml
