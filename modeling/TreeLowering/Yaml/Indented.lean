/-
# Indented scalars

Scalars in block style: a header and the indented lines below it. A literal scalar
keeps its line ends. A folded one joins lines that do not begin with a blank. What
becomes of the last line ends is chosen in the header.
-/

import TreeLowering.Yaml.Glyph

namespace TreeLowering.Yaml

/-- What becomes of the line ends behind the last line with content. -/
inductive Chomping where
  /-- They are dropped. -/
  | strip
  /-- The first one stays. -/
  | clip
  /-- All of them stay. -/
  | keep
  deriving DecidableEq

/-- The choices in a header. Without a number, the lines show their indentation. -/
structure Header where
  chomping : Option Chomping
  increment : Option Nat

/-- The sign that chooses what becomes of the last line ends. -/
def chomping? (c : Char) : Option Chomping :=
  if c = '+' then some .keep else if c = '-' then some .strip else none

/-- Both choices of a header, in either order, and the text behind them. The number is
a digit other than zero. -/
def Header.read? (header : Header) : List Glyph → Option (Header × List Glyph)
  | [] => some (header, [])
  | g :: rest =>
    if header.increment.isNone && g.char.isDigit then
      if g.char = '0' then none
      else Header.read? { header with increment := some (g.char.toNat - '0'.toNat) } rest
    else match header.chomping, chomping? g.char with
      | none, some chomping => Header.read? { header with chomping := some chomping } rest
      | _, _ => some (header, g :: rest)

/-! ## Lines -/

/-- The lines of a text, each with the glyph that ends it. -/
def lines : List Glyph → List (List Glyph)
  | [] => [[]]
  | g :: rest => if g.isBreak then [g] :: lines rest else (lines rest).modifyHead (g :: ·)

/-- The number of blanks at the start of a line that could indent it. -/
def indentation (line : List Glyph) : Nat :=
  (line.takeWhile (·.char == ' ')).length

/-- The indentation that lines show: that of the first line with content, or of a line
without content before it that reaches further, and never less than `least`. A tab may
not stand where the indentation ends. -/
def shownIndentation? (least : Nat) : List (List Glyph) → Option Nat
  | [] => some least
  | line :: rest =>
    let shown := max least (indentation line)
    match line.drop (indentation line) with
    | [] => some shown
    | g :: _ =>
      if g.char = '\t' then none
      else if g.isBreak then shownIndentation? shown rest
      else some shown

/-! ## Text under way -/

/-- A scalar of which some lines were read, latest character first. -/
structure Passage where
  read : List Char
  /-- The end of the last line with content. -/
  ended : List Char
  /-- The ends of the lines without content after it, latest first. -/
  vacant : List Char
  /-- Whether the last line with content began with a blank. -/
  blank : Bool

namespace Passage

/-- Nothing read. -/
def empty : Passage := ⟨[], [], [], false⟩

/-- What the line ends between two lines with content become, latest first. -/
def joint (folded : Bool) (blank : Bool) (passage : Passage) : List Char :=
  if folded && passage.ended == ['\n'] && !passage.blank && !blank then
    if passage.vacant.isEmpty then [' '] else passage.vacant
  else passage.vacant ++ passage.ended

/-- A passage with one more line that has content. -/
def add (folded : Bool) (line : List Glyph) (passage : Passage) : Passage :=
  let blank := line.head?.any Glyph.isSpace
  let content := (line.takeWhile (!·.isBreak)).map Glyph.char
  { read := content.reverse ++ (passage.joint folded blank ++ passage.read)
    ended := (line.dropWhile (!·.isBreak)).map Glyph.char
    vacant := []
    blank := blank }

/-- The text with as many line ends behind it as the header wants. -/
def text (chomping : Chomping) (passage : Passage) : String :=
  let tail := match chomping with
    | .strip => []
    | .clip => passage.ended
    | .keep => passage.vacant ++ passage.ended
  String.ofList (tail ++ passage.read).reverse

end Passage

/-- The lines of an indented scalar from a passage on, and the lines behind it. It ends
at the first line with content that is indented less. -/
def passage? (folded : Bool) (indent : Nat) (passage : Passage) :
    List (List Glyph) → Option (Passage × List (List Glyph))
  | [] => some (passage, [])
  | line :: rest =>
    let spaces := min indent (indentation line)
    match line.drop spaces with
    | [] => some (passage, [])
    | g :: content =>
      if g.isBreak then
        passage? folded indent { passage with vacant := g.char :: passage.vacant } rest
      else if spaces = indent then
        passage? folded indent (passage.add folded (g :: content)) rest
      else if g.char = '\t' then none
      else some (passage, line :: rest)

/-- An indented scalar after its first character, and the text behind it. `column` is
the column of the mapping it belongs to, if there is one. -/
def indented? (folded : Bool) (column : Option Nat) (text : List Glyph) :
    Option (String × List Glyph) := do
  let (header, rest) ← Header.read? ⟨none, none⟩ text
  let below ← afterLine? rest
  let indent ← match header.increment with
    | some increment => some (column.getD 0 + increment)
    | none => shownIndentation? (column.elim 1 (· + 1)) (lines below)
  let (passage, behind) ← passage? folded indent .empty (lines below)
  return (passage.text (header.chomping.getD .clip), behind.flatten)

end TreeLowering.Yaml
