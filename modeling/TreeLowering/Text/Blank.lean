/-
# White space and words

The class of blank characters and the division of a text into words. A word is a
maximal run of characters that are not blank, so the words of a text depend neither
on which blanks separate them nor on how many there are.
-/

namespace TreeLowering.Text

/-- A blank is a character with the Unicode property White_Space. Zero-width spaces,
the byte order mark and the information separators do not have it. -/
def isBlank (c : Char) : Bool :=
  let n := c.toNat
  (0x9 ≤ n && n ≤ 0xD) || n == 0x20 || n == 0x85 || n == 0xA0 || n == 0x1680 ||
    (0x2000 ≤ n && n ≤ 0x200A) || n == 0x2028 || n == 0x2029 || n == 0x202F ||
    n == 0x205F || n == 0x3000

/-- The words of a text, in order. A character joins the word after it unless a blank
or the end of the text comes between. -/
def words : List Char → List (List Char)
  | [] => []
  | c :: rest =>
    if isBlank c then words rest
    else match rest with
      | [] => [[c]]
      | d :: _ => if isBlank d then [c] :: words rest else (words rest).modifyHead (c :: ·)

/-- The words of a text as strings. -/
def splitWords (text : String) : List String :=
  (words text.toList).map String.ofList

end TreeLowering.Text
