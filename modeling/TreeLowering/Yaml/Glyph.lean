/-
# The text of a document

A YAML document is read as glyphs, which are characters that know where they stand:
both the indentation of lines and the distance between characters of a line matter.
The ways to end a line are told apart only where a scalar keeps them, so all that stand
for a line feed become one before glyphs are counted.
-/

namespace TreeLowering.Yaml

/-- The characters a document may consist of. -/
def isPermitted (c : Char) : Bool :=
  let n := c.toNat
  n == 0x9 || n == 0xA || n == 0xD || (0x20 ≤ n && n ≤ 0x7E) || n == 0x85 ||
    (0xA0 ≤ n && n ≤ 0xFFFD) || 0x10000 ≤ n

/-- The characters that end a line once line feeds are unified. -/
def isBreak (c : Char) : Bool :=
  c == '\n' || c.toNat == 0x2028 || c.toNat == 0x2029

/-- A text with its line feeds unified: a carriage return, alone or before a line feed,
and the next-line character count as one. The line and paragraph separators stay. -/
def unifyBreaks : List Char → List Char
  | [] => []
  | '\r' :: '\n' :: rest => '\n' :: unifyBreaks rest
  | c :: rest => (if c = '\r' ∨ c.toNat = 0x85 then '\n' else c) :: unifyBreaks rest

/-- A character with its line and column, counted from zero. -/
structure Glyph where
  char : Char
  line : Nat
  column : Nat
  deriving DecidableEq

namespace Glyph

/-- Whether a glyph is a blank within a line. -/
def isSpace (g : Glyph) : Bool :=
  g.char == ' ' || g.char == '\t'

/-- Whether a glyph ends its line. -/
def isBreak (g : Glyph) : Bool :=
  Yaml.isBreak g.char

/-- Whether a glyph is a blank or ends its line. -/
def isWhite (g : Glyph) : Bool :=
  g.isSpace || g.isBreak

/-- The glyphs of a text that begins at a given place. -/
def place (line column : Nat) : List Char → List Glyph
  | [] => []
  | c :: rest =>
    ⟨c, line, column⟩ ::
      if Yaml.isBreak c then place (line + 1) 0 rest else place line (column + 1) rest

/-- The glyphs of a text, if all its characters are permitted. -/
def ofText? (text : String) : Option (List Glyph) :=
  if text.toList.all isPermitted then some (place 0 0 (unifyBreaks text.toList)) else none

end Glyph

/-- Whether a text is at a gap: at white space or at its end. -/
def atGap (text : List Glyph) : Bool :=
  text.head?.all Glyph.isWhite

/-- Whether a text begins with a given character. -/
def startsWith (c : Char) (text : List Glyph) : Bool :=
  text.head?.any (·.char == c)

/-- Whether a text is at a marker between documents, which is three times the same
character at the start of a line and a gap. -/
def atMarker (marker : Char) : List Glyph → Bool
  | a :: b :: c :: rest =>
    a.column == 0 && a.char == marker && b.char == marker && c.char == marker && atGap rest
  | _ => false

/-- Whether a text is at the start or end marker of a document. -/
def atBoundary (text : List Glyph) : Bool :=
  atMarker '-' text || atMarker '.' text

/-- What follows the line a text begins in, if nothing but blanks and a comment is left
of that line. -/
def afterLine? (text : List Glyph) : Option (List Glyph) :=
  let text := text.dropWhile Glyph.isSpace
  let text := if startsWith '#' text then text.dropWhile (!·.isBreak) else text
  match text with
  | [] => some []
  | g :: rest => if g.isBreak then some rest else none

end TreeLowering.Yaml
