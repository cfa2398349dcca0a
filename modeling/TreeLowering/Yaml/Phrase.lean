/-
# Plain and quoted scalars

Scalars that are written in running text. A gap between two of their words is kept as
it is within a line. Where it spans lines it is folded: the blanks go, a single line
feed becomes a blank and every further one stays.
-/

import TreeLowering.Number.Radix
import TreeLowering.Yaml.Glyph

namespace TreeLowering.Yaml

/-! ## Gaps -/

/-- White space within a scalar. Characters are kept latest first. -/
inductive Gap where
  /-- Blanks of one line. -/
  | blanks (read : List Char)
  /-- The end of a line, unless it was escaped, and the line ends after it. -/
  | broken (first : Option Char) (further : List Char)

namespace Gap

/-- No white space. -/
def empty : Gap := .blanks []

/-- Whether no white space was read. -/
def isEmpty : Gap → Bool
  | .blanks read => read.isEmpty
  | .broken .. => false

/-- Whether a line ended. -/
def isBroken : Gap → Bool
  | .blanks _ => false
  | .broken .. => true

/-- A gap with one more character of white space. Blanks around line ends are lost. -/
def add (c : Char) : Gap → Gap
  | .blanks read => if isBreak c then .broken (some c) [] else .blanks (c :: read)
  | .broken first further => .broken first (if isBreak c then c :: further else further)

/-- What a gap contributes to the scalar, latest first. -/
def fold : Gap → List Char
  | .blanks read => read
  | .broken none further => further
  | .broken (some c) further =>
    if c = '\n' then (if further.isEmpty then [' '] else further) else further ++ [c]

end Gap

/-! ## Text under way -/

/-- A scalar of which a part was read, latest character first, and a gap after it. -/
structure Phrase where
  read : List Char
  gap : Gap

namespace Phrase

/-- Nothing read. -/
def empty : Phrase := ⟨[], .empty⟩

/-- White space continues the gap. -/
def pause (c : Char) (phrase : Phrase) : Phrase :=
  { phrase with gap := phrase.gap.add c }

/-- The gap becomes part of the scalar. -/
def settle (phrase : Phrase) : Phrase :=
  ⟨phrase.gap.fold ++ phrase.read, .empty⟩

/-- Any other character comes after the gap. -/
def add (c : Char) (phrase : Phrase) : Phrase :=
  { phrase.settle with read := c :: phrase.settle.read }

/-- An escaped line end begins a gap of its own. -/
def breakOff (phrase : Phrase) : Phrase :=
  { phrase.settle with gap := .broken none [] }

/-- The text without the gap at its end. -/
def text (phrase : Phrase) : String :=
  String.ofList phrase.read.reverse

end Phrase

/-! ## Plain scalars -/

/-- The characters that structure collections in flow style. -/
def isFlowMark (c : Char) : Bool :=
  c == ',' || c == '[' || c == ']' || c == '\x7b' || c == '\x7d'

/-- Whether a plain scalar ends before a text that does not begin with white space. It
ends at a colon before a gap and in flow style at a mark. After a gap it also ends at
a comment, and after a line end at a marker or, in block style, left of its column. -/
def endsPlain (inFlow : Bool) (column : Nat) (gap : Gap) (g : Glyph) (rest : List Glyph) :
    Bool :=
  (g.char == ':' && atGap rest) || (inFlow && isFlowMark g.char) ||
    (!gap.isEmpty && g.char == '#') ||
    (gap.isBroken && (atBoundary (g :: rest) || (!inFlow && g.column < column)))

/-- In flow style a colon may not touch a mark. -/
def isCaughtColon (inFlow : Bool) (g : Glyph) (rest : List Glyph) : Bool :=
  inFlow && g.char == ':' && rest.head?.any fun h => h.char == '?' || isFlowMark h.char

/-- A plain scalar from a phrase on, and the text after the white space behind it. The
lines of a scalar in block style are not left of `column`, and no tab stands there. -/
def plain? (inFlow : Bool) (column : Nat) (phrase : Phrase) :
    List Glyph → Option (Phrase × List Glyph)
  | [] => some (phrase, [])
  | g :: rest =>
    if g.isWhite then
      if phrase.gap.isBroken && g.char == '\t' && g.column < column then none
      else plain? inFlow column (phrase.pause g.char) rest
    else if endsPlain inFlow column phrase.gap g rest then some (phrase, g :: rest)
    else if isCaughtColon inFlow g rest then none
    else plain? inFlow column (phrase.add g.char) rest

/-! ## Quoted scalars -/

/-- The rest of a single-quoted scalar, in which a quote is written twice, and the text
behind it. -/
def singleQuoted? (phrase : Phrase) : List Glyph → Option (String × List Glyph)
  | [] => none
  | [g] => if g.char = '\'' then some (phrase.settle.text, []) else none
  | g :: h :: rest =>
    if g.isWhite then singleQuoted? (phrase.pause g.char) (h :: rest)
    else if atBoundary (g :: h :: rest) then none
    else if g.char ≠ '\'' then singleQuoted? (phrase.add g.char) (h :: rest)
    else if h.char = '\'' then singleQuoted? (phrase.add '\'') rest
    else some (phrase.settle.text, h :: rest)

/-- The character that an escape of one letter stands for. -/
def escapedLetter? (c : Char) : Option Char :=
  if c = '0' then some '\x00'
  else if c = 'a' then some '\x07'
  else if c = 'b' then some '\x08'
  else if c = 't' ∨ c = '\t' then some '\t'
  else if c = 'n' then some '\n'
  else if c = 'v' then some '\x0b'
  else if c = 'f' then some '\x0c'
  else if c = 'r' then some '\r'
  else if c = 'e' then some '\x1b'
  else if c = ' ' ∨ c = '"' ∨ c = '/' ∨ c = '\\' then some c
  else if c = 'N' then some '\u0085'
  else if c = '_' then some '\u00a0'
  else if c = 'L' then some '\u2028'
  else if c = 'P' then some '\u2029'
  else none

/-- The number of hexadecimal digits after the letter of an escape. -/
def escapeLength? (c : Char) : Option Nat :=
  if c = 'x' then some 2
  else if c = 'u' then some 4
  else if c = 'U' then some 8
  else none

/-- The character of an escape after its backslash, with the number of glyphs that it
takes. Digits must name a character. -/
def escape? : List Glyph → Option (Char × Nat)
  | [] => none
  | g :: rest =>
    match escapeLength? g.char with
    | none => (escapedLetter? g.char).map fun c => (c, 1)
    | some length => do
      let digits := (rest.take length).map Glyph.char
      if digits.length < length then none
      else
        let n ← Number.natural? 16 digits
        if n.isValidChar then some (Char.ofNat n, length + 1) else none

/-- The rest of a double-quoted scalar, of which some glyphs belong to an escape that
was already read, and the text behind it. -/
def doubleQuoted? (phrase : Phrase) : Nat → List Glyph → Option (String × List Glyph)
  | _, [] => none
  | skip + 1, _ :: rest => doubleQuoted? phrase skip rest
  | 0, g :: rest =>
    if g.isWhite then doubleQuoted? (phrase.pause g.char) 0 rest
    else if atBoundary (g :: rest) then none
    else if g.char = '"' then some (phrase.settle.text, rest)
    else if g.char ≠ '\\' then doubleQuoted? (phrase.add g.char) 0 rest
    else if rest.head?.any Glyph.isBreak then doubleQuoted? phrase.breakOff 1 rest
    else match escape? rest with
      | some (c, length) => doubleQuoted? (phrase.add c) length rest
      | none => none

end TreeLowering.Yaml
