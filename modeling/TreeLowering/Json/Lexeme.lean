/-
# JSON lexemes

The division of JSON text into lexemes: brackets, separators, strings, numbers and
words. The lexer is an automaton that takes one character at a time, so it ends on
every text. It is strict: strings hold no control characters and no unpaired
surrogates, numbers have the JSON form and a finite value, and nothing but blanks,
line feeds, carriage returns and tabs separates lexemes.
-/

import TreeLowering.Json.Value

namespace TreeLowering.Json

open TreeLowering.Number

/-- A lexeme. Values without inner structure are kept as the values they denote. -/
inductive Lexeme where
  | openArray
  | closeArray
  | openObject
  | closeObject
  | comma
  | colon
  | scalar (value : Json)

/-- Where the automaton stands. Texts under way are kept latest character first. -/
inductive LexerState where
  | between
  | number (text : List Char)
  | word (text : List Char)
  /-- Inside a string. -/
  | string (text : List Char)
  /-- After a backslash in a string. -/
  | escape (text : List Char)
  /-- Inside the four digits of a code unit, after a high surrogate if there is one. -/
  | unit (text : List Char) (high : Option Nat) (digits : Nat) (value : Nat)
  /-- After a high surrogate, where only another code unit may follow. -/
  | pairBackslash (text : List Char) (high : Nat)
  | pairLetter (text : List Char) (high : Nat)

/-- The integer part of a JSON number has no leading zero. -/
def isWholePart : List Char → Bool
  | [] => false
  | ['0'] => true
  | '0' :: _ => false
  | digits => digits.all Char.isDigit

/-- A point must have a digit after it. -/
def isFractionPart : List Char → Bool
  | [] => true
  | '.' :: digits => !digits.isEmpty && digits.all Char.isDigit
  | _ => false

/-- A JSON number without its sign, in binary64. -/
def float? (negative : Bool) (text : List Char) : Option Json :=
  let whole := text.takeWhile Char.isDigit
  let rest := text.dropWhile Char.isDigit
  let fraction := rest.takeWhile fun c => c == '.' || c.isDigit
  if isWholePart whole && isFractionPart fraction then
    ((Decimal.magnitude? negative text).bind Binary64.ofDecimal?).map Json.float
  else none

/-- A JSON number without its sign. An integer literal is kept exactly within signed
64 bits below zero and unsigned 64 bits from zero on; `-0` is not an integer. -/
def magnitude? (negative : Bool) (text : List Char) : Option Json :=
  if isWholePart text then
    match natural? 10 text with
    | none => none
    | some n =>
      if negative then
        if 0 < n ∧ n ≤ Nat.pow 2 63 then some (.integer (-(n : Int))) else float? negative text
      else if n < Nat.pow 2 64 then some (.integer n)
      else float? negative text
  else float? negative text

/-- A JSON number. -/
def number? : List Char → Option Json
  | '-' :: text => magnitude? true text
  | text => magnitude? false text

/-- A JSON word. -/
def word? (text : List Char) : Option Json :=
  if text = ['n', 'u', 'l', 'l'] then some .null
  else if text = ['t', 'r', 'u', 'e'] then some (.bool true)
  else if text = ['f', 'a', 'l', 's', 'e'] then some (.bool false)
  else none

/-- The characters that separate lexemes. -/
def isSeparator (c : Char) : Bool :=
  c == ' ' || c == '\n' || c == '\r' || c == '\t'

/-- The characters a number may consist of. -/
def isNumeric (c : Char) : Bool :=
  c.isDigit || c == '-' || c == '+' || c == '.' || c == 'e' || c == 'E'

/-- The character that a one-letter escape stands for. -/
def escaped? (c : Char) : Option Char :=
  if c = '"' ∨ c = '\\' ∨ c = '/' then some c
  else if c = 'b' then some '\x08'
  else if c = 'f' then some '\x0c'
  else if c = 'n' then some '\n'
  else if c = 'r' then some '\r'
  else if c = 't' then some '\t'
  else none

/-- The state after a character that begins a lexeme, with the lexeme if it is
complete. -/
def beginLexeme (c : Char) : Option (LexerState × List Lexeme) :=
  if isSeparator c then some (.between, [])
  else if c = '[' then some (.between, [.openArray])
  else if c = ']' then some (.between, [.closeArray])
  else if c = '\x7b' then some (.between, [.openObject])
  else if c = '\x7d' then some (.between, [.closeObject])
  else if c = ',' then some (.between, [.comma])
  else if c = ':' then some (.between, [.colon])
  else if c = '"' then some (.string [], [])
  else if c = '-' || c.isDigit then some (.number [c], [])
  else if c.isLower then some (.word [c], [])
  else none

/-- The lexeme whose end the character `c` marks, followed by what `c` begins. -/
def endLexeme (value : Option Json) (c : Char) : Option (LexerState × List Lexeme) :=
  match value, beginLexeme c with
  | some v, some (state, lexemes) => some (state, .scalar v :: lexemes)
  | _, _ => none

/-- The state after a complete code unit. A high surrogate waits for the low one it
pairs with, and neither stands alone. -/
def endUnit (text : List Char) (high : Option Nat) (unit : Nat) : Option LexerState :=
  match high with
  | none =>
    if 0xD800 ≤ unit ∧ unit < 0xDC00 then some (.pairBackslash text unit)
    else if 0xDC00 ≤ unit ∧ unit < 0xE000 then none
    else some (.string (Char.ofNat unit :: text))
  | some first =>
    if 0xDC00 ≤ unit ∧ unit < 0xE000 then
      let code := 0x10000 + (first - 0xD800) * 0x400 + (unit - 0xDC00)
      some (.string (Char.ofNat code :: text))
    else none

/-- One character of the text: the state it leads to and the lexemes it completes. -/
def lexStep (state : LexerState) (c : Char) : Option (LexerState × List Lexeme) :=
  match state with
  | .between => beginLexeme c
  | .number text =>
    if isNumeric c then some (.number (c :: text), [])
    else endLexeme (number? text.reverse) c
  | .word text =>
    if c.isLower then some (.word (c :: text), [])
    else endLexeme (word? text.reverse) c
  | .string text =>
    if c = '"' then some (.between, [.scalar (.string (String.ofList text.reverse))])
    else if c = '\\' then some (.escape text, [])
    else if c.toNat < 0x20 then none
    else some (.string (c :: text), [])
  | .escape text =>
    if c = 'u' then some (.unit text none 0 0, [])
    else (escaped? c).map fun e => (.string (e :: text), [])
  | .unit text high digits value =>
    match digit? 16 c with
    | none => none
    | some d =>
      let value := value * 16 + d
      if digits < 3 then some (.unit text high (digits + 1) value, [])
      else (endUnit text high value).map fun s => (s, [])
  | .pairBackslash text high => if c = '\\' then some (.pairLetter text high, []) else none
  | .pairLetter text high => if c = 'u' then some (.unit text (some high) 0 0, []) else none

/-- The lexeme that the end of the text completes. -/
def lexEnd : LexerState → Option (List Lexeme)
  | .between => some []
  | .number text => (number? text.reverse).map fun v => [.scalar v]
  | .word text => (word? text.reverse).map fun v => [.scalar v]
  | _ => none

/-- The lexemes of a text, read from a state of the automaton and put after those
already `read`, which are latest first. -/
def lexFrom (state : LexerState) (read : List Lexeme) : List Char → Option (List Lexeme)
  | [] => (lexEnd state).map fun lexemes => read.reverse ++ lexemes
  | c :: rest => match lexStep state c with
    | none => none
    | some (state, lexemes) => lexFrom state (lexemes.reverse ++ read) rest

/-- The lexemes of a text. -/
def lexemes? (text : String) : Option (List Lexeme) :=
  lexFrom .between [] text.toList

end TreeLowering.Json
