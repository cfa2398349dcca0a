/-
# Directives

Lines before a document that say which version of the format it follows and what the
handles of its tags stand for.
-/

import TreeLowering.Yaml.Tag

namespace TreeLowering.Yaml

/-- A directive. -/
inductive Directive where
  | version (major minor : Nat)
  | handle (handle : Handle) (beginning : List UInt8)

/-- A part of a version, which has at most nine digits, and the text behind it. -/
def versionPart? (text : List Glyph) : Option (Nat × List Glyph) :=
  let digits := (text.takeWhile (·.char.isDigit)).map Glyph.char
  if 9 < digits.length then none
  else (Number.natural? 10 digits).map fun n => (n, text.dropWhile (·.char.isDigit))

/-- The version of a directive, and the text behind it. -/
def version? (text : List Glyph) : Option (Directive × List Glyph) := do
  let (major, rest) ← versionPart? text
  if startsWith '.' rest then
    let (minor, rest) ← versionPart? (rest.drop 1)
    return (.version major minor, rest)
  else none

/-- A handle, and the text behind it. -/
def handle? (text : List Glyph) : Option (Handle × List Glyph) :=
  if startsWith '!' text then
    let name := ((text.drop 1).takeWhile (isNameChar ·.char)).map Glyph.char
    let rest := (text.drop 1).dropWhile (isNameChar ·.char)
    if startsWith '!' rest then some (.named name, rest.drop 1)
    else if name.isEmpty then some (.primary, rest)
    else none
  else none

/-- A handle and what it stands for, with blanks between them, and the text behind. -/
def meaning? (text : List Glyph) : Option (Directive × List Glyph) := do
  let (handle, rest) ← handle? text
  if rest.head?.any Glyph.isSpace then
    let (beginning, rest) ← tagText? true (rest.dropWhile Glyph.isSpace)
    if atGap rest then return (.handle handle beginning, rest) else none
  else none

/-- A directive after its percent sign, and the text behind its line. -/
def directive? (text : List Glyph) : Option (Directive × List Glyph) := do
  let name := (text.takeWhile (isNameChar ·.char)).map Glyph.char
  let rest := text.dropWhile (isNameChar ·.char)
  if atGap rest then
    let rest := rest.dropWhile Glyph.isSpace
    let (directive, rest) ←
      if name = ['Y', 'A', 'M', 'L'] then version? rest
      else if name = ['T', 'A', 'G'] then meaning? rest
      else none
    return (directive, ← afterLine? rest)
  else none

end TreeLowering.Yaml
