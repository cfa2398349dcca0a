/-
# Reading JSON

A reader that takes one lexeme at a time and keeps the containers under way on a
stack. It therefore needs no recursion on the nesting of the text, and a limit on the
nesting is a limit on the length of the stack. Text with any violation denotes nothing;
there is no partial result.
-/

import TreeLowering.Json.Lexeme

namespace TreeLowering.Json

/-- A container under way. Contents are kept latest first. -/
inductive Frame where
  | items (read : List Json)
  | members (read : List (String × Json))
  /-- An object in which the value of `key` is under way. -/
  | member (read : List (String × Json)) (key : String)

/-- What the reader takes next. -/
inductive Expectation where
  | value
  /-- A value or the end of an array just opened. -/
  | firstItem
  | key
  /-- A key or the end of an object just opened. -/
  | firstKey
  | colon
  /-- A separator or an end, after the complete value `last`. -/
  | separator (last : Json)

/-- The containers under way, innermost first, and what comes next. -/
structure Reader where
  frames : List Frame
  next : Expectation

/-- Whether another container may be opened. Without a limit it always may. -/
def mayOpen (limit : Option Nat) (frames : List Frame) : Bool :=
  match limit with
  | none => true
  | some n => frames.length < n

/-- The reader after the first lexeme of a value. -/
def beginValue (limit : Option Nat) (frames : List Frame) : Lexeme → Option Reader
  | .scalar value => some ⟨frames, .separator value⟩
  | .openArray => if mayOpen limit frames then some ⟨.items [] :: frames, .firstItem⟩ else none
  | .openObject => if mayOpen limit frames then some ⟨.members [] :: frames, .firstKey⟩ else none
  | _ => none

/-- The reader after the lexeme where a key must stand. -/
def takeKey : List Frame → Lexeme → Option Reader
  | .members read :: frames, .scalar (.string key) => some ⟨.member read key :: frames, .colon⟩
  | _, _ => none

/-- The reader after the lexeme that follows a complete value. -/
def endValue (last : Json) : List Frame → Lexeme → Option Reader
  | .items read :: frames, .comma => some ⟨.items (last :: read) :: frames, .value⟩
  | .items read :: frames, .closeArray =>
    some ⟨frames, .separator (.array (last :: read).reverse)⟩
  | .member read key :: frames, .comma => some ⟨.members ((key, last) :: read) :: frames, .key⟩
  | .member read key :: frames, .closeObject =>
    some ⟨frames, .separator (.object ((key, last) :: read).reverse)⟩
  | _, _ => none

/-- The reader after one lexeme. -/
def readStep (limit : Option Nat) (reader : Reader) (lexeme : Lexeme) : Option Reader :=
  match reader.next, lexeme with
  | .value, lexeme => beginValue limit reader.frames lexeme
  | .firstItem, .closeArray => some ⟨reader.frames.tail, .separator (.array [])⟩
  | .firstItem, lexeme => beginValue limit reader.frames lexeme
  | .key, lexeme => takeKey reader.frames lexeme
  | .firstKey, .closeObject => some ⟨reader.frames.tail, .separator (.object [])⟩
  | .firstKey, lexeme => takeKey reader.frames lexeme
  | .colon, .colon => some ⟨reader.frames, .value⟩
  | .colon, _ => none
  | .separator last, lexeme => endValue last reader.frames lexeme

/-- The value of a text that has ended, if nothing is left open. -/
def Reader.result? : Reader → Option Json
  | ⟨[], .separator value⟩ => some value
  | _ => none

/-- The value that a list of lexemes denotes. -/
def ofLexemes? (limit : Option Nat) (lexemes : List Lexeme) : Option Json :=
  (lexemes.foldlM (readStep limit) ⟨[], .value⟩).bind Reader.result?

/-- The value of a JSON text in which at most `limit` containers are open at a time. -/
def parse? (limit : Option Nat) (text : String) : Option Json :=
  (lexemes? text).bind (ofLexemes? limit)

end TreeLowering.Json
