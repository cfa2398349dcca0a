/-
# Letter case within ASCII

Comparison and classification that know the twenty-six ASCII letters only. Characters
beyond ASCII are letters of neither case here and equal to themselves alone.
-/

namespace TreeLowering.Text

/-- Whether two texts agree once ASCII capitals are read as small letters. -/
def equalIgnoringCase (a b : String) : Bool :=
  a.toList.map Char.toLower == b.toList.map Char.toLower

/-- A token name has at least one ASCII capital and no small ASCII letter. -/
def isCapitalized (name : String) : Bool :=
  name.toList.any Char.isUpper && !name.toList.any Char.isLower

end TreeLowering.Text
