/-
# Literals

Keyword, number and string literals. Integers are exact within 64 bits and rejected
beyond; a string keeps its escapes as they are written and loses only its marks.
-/

import TreeLowering.Lowering.Reduction
import TreeLowering.Number.Radix
import TreeLowering.Text.Letters

namespace TreeLowering.Lowering

open TreeLowering.Number TreeLowering.Reduced

/-- A constant with a value. -/
def constant (r : Reduction) (value : Scalar) : Except Error Reduced :=
  r.build .constant [("value", .scalar value)]

/-- The word of a keyword literal and the value it has. -/
def keywordLiteral : Rule → String × Scalar
  | .constTrue => ("true", .bool true)
  | .constFalse => ("false", .bool false)
  | _ => ("none", .none)

/-- If a token is present, it must spell the given word in letters of any case. -/
def expectWord (word : String) : Option Reduced → Except Error Unit
  | none => .ok ()
  | some (.token t) =>
    if Text.equalIgnoringCase t.text word then .ok ()
    else .error (.unrecognized "keyword literal" t.text)
  | item => .error (unexpected "keyword literal" item)

/-- A keyword literal, with or without its token. -/
def keywordConstant : Handler := fun r => Reading.answer do
  let (word, value) := keywordLiteral r.rule
  expectWord word (← Reading.next)
  Reading.done
  constant r value

/-! ## Numbers -/

/-- The digits behind a mark of the radix: `0x`, `0b` or `0o` in letters of any case.
Without a mark, all of them. -/
def dropRadixMark : List Char → List Char
  | '0' :: mark :: digits =>
    if mark.toLower = 'x' ∨ mark.toLower = 'b' ∨ mark.toLower = 'o' then digits
    else '0' :: mark :: digits
  | digits => digits

/-- The value of the digits of a numeral with a fraction. -/
def decodeFraction? (floats : FloatLiterals) (digits : List Char) : Option Scalar :=
  ((Decimal.read? digits).bind Binary64.ofDecimal?).bind fun x =>
    match floats with
    | .preserve => some (.float x)
    | .truncate => if fitsWord64 x.truncate then some (.int x.truncate) else none

/-- The value of a number token, by its lexical class. Underscores between digits are
ignored. -/
def decodeNumber (floats : FloatLiterals) (token : Token) : Except Error Scalar :=
  let digits := token.text.toList.filter (· != '_')
  let integer (value : Option Int) : Except Error Scalar :=
    match value with
    | some n => .ok (.int n)
    | none => .error (.unrecognized "integer literal" token.text)
  match token.lexicalClass with
  | "HEX_NUMBER" => integer (word64? 16 (dropRadixMark digits))
  | "BIN_NUMBER" => integer (word64? 2 (dropRadixMark digits))
  | "OCT_NUMBER" => integer (word64? 8 (dropRadixMark digits))
  | "DEC_NUMBER" => integer (word64? 10 digits)
  | "FLOAT_NUMBER" =>
    match decodeFraction? floats digits with
    | some value => .ok value
    | none => .error (.unrecognized "float literal" token.text)
  | other => .error (.unrecognized "number class" other)

/-- The token of a number, bare or alone in a fragment. -/
def numberToken : Reduced → Except Error Token
  | .token t => .ok t
  | .fragment _ [child] _ => numberToken child
  | other => .error (unexpected "number token" (some other))

/-- The token of a number that must be present. -/
def expectNumber : Option Reduced → Except Error Token
  | some item => numberToken item
  | none => .error (unexpected "number token" none)

/-- A number literal. -/
def number : Handler := fun r => Reading.answer do
  let token ← expectNumber (← Reading.next)
  Reading.done
  constant r (← decodeNumber r.options.floatLiterals token)

/-! ## Strings -/

/-- The letters that may stand before the opening quote. -/
def isStringMark (c : Char) : Bool :=
  "rRbBuUfF".toList.contains c

/-- The delimiters of a string literal, in the order in which they are tried. -/
def delimiters : List (List Char) :=
  [['"', '"', '"'], ['\'', '\'', '\''], ['"'], ['\'']]

/-- What stands between two occurrences of a delimiter that open and close a text
without overlapping. -/
def between? (delimiter text : List Char) : Option (List Char) :=
  if 2 * delimiter.length ≤ text.length ∧ delimiter.isPrefixOf text ∧ delimiter.isSuffixOf text
  then some ((text.drop delimiter.length).take (text.length - 2 * delimiter.length))
  else none

/-- The body of a string literal: marks and delimiters are taken off. -/
def stripDelimiters (literal : String) : Except Error String :=
  let quoted := literal.toList.dropWhile isStringMark
  match delimiters.findSome? fun delimiter => between? delimiter quoted with
  | some body => .ok (String.ofList body)
  | none => .error (.unrecognized "string literal" literal)

/-- A token that must be present. -/
def expectToken (what : String) : Option Reduced → Except Error Token
  | some (.token t) => .ok t
  | item => .error (unexpected what item)

/-- A string literal. -/
def string : Handler := fun r => Reading.answer do
  let token ← expectToken "string token" (← Reading.next)
  Reading.done
  constant r (.text (← stripDelimiters token.text))

/-- The text of a string constant. -/
def stringText : Reduced → Except Error String
  | .node n =>
    if n.construct = .constant then
      match (n.get? "value").bind Value.text? with
      | some text => .ok text
      | none => .error (.shape "string constant" "non-string constant")
    else .error (unexpected "string constant" (some (.node n)))
  | other => .error (unexpected "string constant" (some other))

/-- Adjacent string literals, joined into one constant. -/
def stringConcat : Handler := fun r items => do
  let texts ← items.mapM stringText
  constant r (.text (String.join texts))

end TreeLowering.Lowering
